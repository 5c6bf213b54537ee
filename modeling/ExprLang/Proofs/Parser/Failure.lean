import ExprLang.Proofs.Grammar.Reading
import ExprLang.Proofs.Token.Spelling

/-!
Where a parser fails and why. Main statement: what a sequence has read when it fails can be
completed if that holds of its steps, each behind what the steps before it have read.
-/

namespace ExprLang

namespace Token

/-- A token of this text, wherever it stands. -/
def ofText (text : String) : Token := ⟨(Piece.kindOf? text.toList).getD .endMark, text, .null⟩

theorem spelt_ofText {text : String} (h : (Piece.kindOf? text.toList).isSome = true) :
    (ofText text).Spelt := by
  unfold Spelt ofText
  cases hk : Piece.kindOf? text.toList with
  | none => simp [hk] at h
  | some kind => rfl

theorem is_ofText {text : String} (h : (Piece.kindOf? text.toList).isSome = true) :
    (ofText text).is text = true := by
  have hend : (ofText text).isEnd = false := (spelt_ofText h).isEnd
  have htext : (ofText text).text = text := rfl
  simp [is, hend, htext]

theorem isName_ofText : (ofText "x").IsName := by decide

end Token

namespace Grammar

/-- The tokens that are read can be completed to what is wanted. -/
def Viable (L : List Token → Prop) (w : List Token) : Prop :=
  ∃ u, (∀ t ∈ u, t.Spelt) ∧ L (w ++ u)

theorem viable_of {L : List Token → Prop} {w : List Token} (h : L w) : Viable L w :=
  ⟨[], by simp, by rwa [List.append_nil]⟩

/-- Tokens of these texts are missing. -/
theorem viable_of_texts {L : List Token → Prop} {w : List Token} (texts : List String)
    (htexts : ∀ text ∈ texts, (Piece.kindOf? text.toList).isSome = true)
    (h : L (w ++ texts.map Token.ofText)) : Viable L w := by
  refine ⟨texts.map Token.ofText, fun t ht => ?_, h⟩
  obtain ⟨text, htext, rfl⟩ := List.mem_map.1 ht
  exact Token.spelt_ofText (htexts text htext)

/-- A viable prefix of a part is one of the whole, if the part opens what the whole goes on with. -/
theorem Viable.within {K L : List Token → Prop} {v w : List Token} (h : Viable K w)
    (hL : ∀ w, K w → Viable L (v ++ w)) : Viable L (v ++ w) := by
  obtain ⟨u, hu, hK⟩ := h
  obtain ⟨x, hx, hL⟩ := hL _ hK
  refine ⟨u ++ x, List.forall_mem_append.2 ⟨hu, hx⟩, ?_⟩
  rwa [List.append_assoc, List.append_assoc] at *

end Grammar

/-- What an error says of the tokens `w` that were read before it and of the token `x` behind them:
it quotes and places `x`, or it places a declaration among the tokens read. -/
def Error.Blames (e : Error) (w : List Token) (x : Token) : Prop :=
  match e.cause with
  | .unexpectedToken _ found kind => found = x.text ∧ kind = x.kind ∧ e.position = x.location
  | .numberOutOfRange numeral => numeral = x.text ∧ e.position = x.location
  | .declarationAsResult => ∃ t ∈ w, t.is "var" = true ∧ e.position = t.location
  | _ => False

theorem Error.Blames.behind {e : Error} {w : List Token} {x : Token} (h : e.Blames w x)
    (v : List Token) : e.Blames (v ++ w) x := by
  unfold Blames at *
  split at h
  · exact h
  · exact h
  · obtain ⟨t, ht, hplace⟩ := h
    exact ⟨t, List.mem_append_right v ht, hplace⟩
  · exact h

/-- The error stands at the token it blames, or at one that was read before it. -/
theorem Error.Blames.position {e : Error} {w : List Token} {x : Token} (h : e.Blames w x) :
    e.position = x.location ∨ ∃ t ∈ w, e.position = t.location := by
  unfold Blames at h
  split at h
  · exact .inl h.2.2
  · exact .inl h.2
  · obtain ⟨t, ht, -, hplace⟩ := h
    exact .inr ⟨t, ht, hplace⟩
  · exact h.elim

/-- What an error says of the tokens `w` that were read before it and of the stream `t` behind them.
Where it refuses a declaration, this is the last of what was read. -/
structure Error.Faults (e : Error) (w : List Token) (t : TokenStream) : Prop where
  blames : e.Blames w t.current
  declaration : e.cause = .declarationAsResult → ∃ u v item, w = u ++ v ∧
    Grammar.Unended v t.ahead item ∧ item.isDeclaration = true ∧ e.position = item.span.start

theorem Error.Faults.behind {e : Error} {w : List Token} {t : TokenStream} (h : e.Faults w t)
    (v : List Token) : e.Faults (v ++ w) t where
  blames := h.blames.behind v
  declaration hcause := by
    obtain ⟨u, x, item, rfl, hitem⟩ := h.declaration hcause
    exact ⟨v ++ u, x, item, (List.append_assoc v u x).symm, hitem⟩

/-- Only the block refuses a declaration. -/
theorem Error.faults_of_ne {e : Error} {w : List Token} {t : TokenStream}
    (h : e.Blames w t.current) (hcause : e.cause ≠ .declarationAsResult) : e.Faults w t :=
  ⟨h, fun h => absurd h hcause⟩

namespace Parser

open ExprLang.Grammar (Viable)
open ExprLang.Token (starts)

variable {α β : Type} {n : Nat} {p q : Parser α} {s : TokenStream} {L K : List Token → Prop}
  {v : List Token}

/-- Where `p` fails on `s`, the error says so, and what was read by then, the tokens `v` before `s`
included, can be completed. -/
def FailsAt (p : Parser α) (s : TokenStream) (v : List Token) (L : List Token → Prop) : Prop :=
  ∀ e t, p s = .error e t → ∃ w r, s.ahead = w ++ r ∧ t = s.pass w ∧
    e.Faults (v ++ w) t ∧ Viable L (v ++ w)

/-- So it is on all streams of at most `n` tokens. -/
def Fails (p : Parser α) (n : Nat) (v : List Token) (L : List Token → Prop) : Prop :=
  ∀ s : TokenStream, s.remaining ≤ n → (∀ t ∈ s.ahead, t.Spelt) → FailsAt p s v L

theorem Fails.mono {m : Nat} (h : Fails p n v L) (hm : m ≤ n) : Fails p m v L :=
  fun s hs => h s (Nat.le_trans hs hm)

theorem FailsAt.within (h : FailsAt p s [] K) (hL : ∀ w, K w → Viable L (v ++ w)) :
    FailsAt p s v L := by
  intro e t hrun
  obtain ⟨w, r, hw, ht, hfaults, hviable⟩ := h e t hrun
  exact ⟨w, r, hw, ht, hfaults.behind v, hviable.within hL⟩

/-- A part fails within the whole as it does alone. -/
theorem Fails.within (h : Fails p n [] K) (hL : ∀ w, K w → Viable L (v ++ w)) :
    Fails p n v L := fun s hs hspelt => (h s hs hspelt).within hL

theorem spelt_pass {w r : List Token} (h : ∀ t ∈ s.ahead, t.Spelt) (hw : s.ahead = w ++ r) :
    (∀ t ∈ w, t.Spelt) ∧ ∀ t ∈ (s.pass w).ahead, t.Spelt := by
  rw [TokenStream.ahead_pass hw]
  rw [hw] at h
  exact List.forall_mem_append.1 h

theorem failsAt_pure (a : α) : FailsAt (pure a) s v L := by
  intro e t h
  cases h

theorem fails_pure (a : α) : Fails (pure a) n v L := fun _ _ _ => failsAt_pure a

theorem fails_unexpected (expected : Expected) (h : Viable L v) :
    Fails (unexpected expected : Parser α) n v L := by
  intro s _ _ e t hrun
  cases hrun
  exact ⟨[], s.ahead, rfl, rfl, Error.faults_of_ne ⟨rfl, rfl, rfl⟩ (by simp),
    by rwa [List.append_nil]⟩

/-- The second step of a sequence fails behind what the first one has read. -/
theorem FailsAt.bind {R : Relation α} {f : α → Parser β} (hp : FailsAt p s v L)
    (hd : DenotesAt p s R)
    (hf : ∀ w u a, s.ahead = w ++ u → R w u a → FailsAt (f a) (s.pass w) (v ++ w) L) :
    FailsAt (p >>= f) s v L := by
  intro e t hrun
  cases hps : p s with
  | error e' t' =>
    rw [Sequence.bind_of_error hps] at hrun
    cases hrun
    exact hp e t hps
  | ok a t' =>
    rw [Sequence.bind_of_ok hps] at hrun
    obtain ⟨w, u, hw, rfl, hR⟩ := (hd a t').1 hps
    obtain ⟨w', r, hw', rfl, hfaults, hviable⟩ := hf w u a hw hR e t hrun
    rw [TokenStream.ahead_pass hw] at hw'
    subst hw'
    rw [List.append_assoc] at hfaults hviable
    exact ⟨w ++ w', r, by rw [hw, List.append_assoc], (s.pass_append w w').symm, hfaults, hviable⟩

theorem Fails.bind_of {R : Relation α} {f : α → Parser β} {m : Nat} (hp : Fails p n v L)
    (hd : Denotes p n R) (hm : ∀ w r a, R w r a → (w ++ r).length ≤ n → r.length ≤ m)
    (hf : ∀ w r a, (∀ t ∈ w, t.Spelt) → R w r a → Fails (f a) m (v ++ w) L) :
    Fails (p >>= f) n v L := by
  intro s hs hspelt
  refine (hp s hs hspelt).bind (hd s hs) fun w r a hw hR => ?_
  obtain ⟨hspelt, hrest⟩ := spelt_pass hspelt hw
  refine hf w r a hspelt hR _ ?_ hrest
  rw [TokenStream.remaining, TokenStream.ahead_pass hw]
  exact hm w r a hR (by rw [← hw]; exact hs)

theorem Fails.bind {R : Relation α} {f : α → Parser β} (hp : Fails p n v L) (hd : Denotes p n R)
    (hf : ∀ w r a, (∀ t ∈ w, t.Spelt) → R w r a → Fails (f a) n (v ++ w) L) :
    Fails (p >>= f) n v L := by
  refine hp.bind_of hd (fun w r a _ h => ?_) hf
  rw [List.length_append] at h
  omega

theorem Fails.bind_consuming {R : Relation α} {f : α → Parser β} (hp : Fails p (n + 1) v L)
    (hd : Denotes p (n + 1) R) (hR : Consuming R)
    (hf : ∀ w r a, (∀ t ∈ w, t.Spelt) → R w r a → Fails (f a) n (v ++ w) L) :
    Fails (p >>= f) (n + 1) v L := by
  refine hp.bind_of hd (fun w r a h hlen => ?_) hf
  have hw : 0 < w.length := List.length_pos_iff.2 (hR w r a h)
  rw [List.length_append] at hlen
  omega

/-- A part of the whole fails as it does alone. Once it is read, the whole can still be
completed. -/
theorem Fails.part {R : Relation α} {f : α → Parser β} (hp : Fails p n [] K) (hd : Denotes p n R)
    (hR : ∀ w r a, (∀ t ∈ w, t.Spelt) → R w r a → K w) (hL : ∀ w, K w → Viable L (v ++ w))
    (hf : ∀ w a, K w → Viable L (v ++ w) → Fails (f a) n (v ++ w) L) :
    Fails (p >>= f) n v L := by
  refine (hp.within hL).bind hd fun w r a hspelt ha => ?_
  have hK : K w := hR w r a hspelt ha
  exact hf w a hK (hL w hK)

theorem FailsAt.current_bind {f : Token → Parser α} (h : FailsAt (f s.current) s v L) :
    FailsAt (current >>= f) s v L := h

theorem FailsAt.test {test : TokenStream → Bool} (h : FailsAt (if test s then p else q) s v L) :
    FailsAt (do if test (← get) then p else q) s v L := h

/-- Reading the current token never fails. -/
theorem failsAt_advance {f : Token → Parser α} {x : Token} {r : List Token}
    (hx : s.ahead = x :: r) (h : FailsAt (f x) (s.pass [x]) (v ++ [x]) L) :
    FailsAt (advance >>= f) s v L := by
  intro e t hrun
  rw [advance_bind hx] at hrun
  obtain ⟨w, r', hw, rfl, hfaults, hviable⟩ := h e t hrun
  rw [TokenStream.ahead_pass (w := [x]) hx] at hw
  subst hw
  rw [List.append_assoc] at hfaults hviable
  exact ⟨x :: w, r', hx, (s.pass_append [x] w).symm, hfaults, hviable⟩

theorem fails_demand (text : String) (expected : Expected) (h : Viable L v) :
    Fails (demand text expected) n v L := by
  intro s hs hspelt e t hrun
  cases hc : s.current.is text with
  | true =>
    rw [demand_of_is hc] at hrun
    cases hrun
  | false =>
    rw [demand_of_not_is hc] at hrun
    exact fails_unexpected expected h s hs hspelt e t hrun

theorem fails_identifier (h : Viable L v) : Fails identifier n v L := by
  intro s hs hspelt
  refine FailsAt.current_bind ?_
  split
  next hname =>
    obtain ⟨r, hx⟩ := ahead_of_current (isEnd_of_identifier hname.1)
    exact failsAt_advance hx (failsAt_pure _)
  next => exact fails_unexpected _ h s hs hspelt

/-- Behind a token that has to stand there the bound is smaller by one. -/
theorem fails_demand_bind {m : Nat} {f : Token → Parser β} (text : String) (expected : Expected)
    (hm : m ≤ n + 1) (hv : Viable L v)
    (hf : ∀ t, t.is text = true → Fails (f t) n (v ++ [t]) L) :
    Fails (demand text expected >>= f) m v L := by
  refine Fails.mono ?_ hm
  refine (fails_demand text expected hv).bind_consuming (denotes_demand text expected)
    (consuming_one _) fun w r t _ ht => ?_
  obtain ⟨rfl, ht⟩ := ht
  exact hf t ht

theorem fails_expect_bind {m : Nat} {f : Token → Parser β} (text : String) (hm : m ≤ n + 1)
    (hv : Viable L v) (hf : ∀ t, t.is text = true → Fails (f t) n (v ++ [t]) L) :
    Fails (expect text >>= f) m v L := fails_demand_bind text _ hm hv hf

theorem fails_ite (text : String) (hp : Fails p n v L) (hq : Fails q n v L) :
    Fails (do if (← current).is text then p else q) n v L := by
  intro s hs hspelt
  refine FailsAt.current_bind ?_
  split
  · exact hp s hs hspelt
  · exact hq s hs hspelt

theorem fails_take {m : Nat} (text : String) (hm : m ≤ n + 1)
    (hp : ∀ x, x.is text = true → Fails p n (v ++ [x]) L) (hq : Fails q m v L) :
    Fails (do if (← current).is text then (do let _ ← advance; p) else q) m v L := by
  intro s hs hspelt
  refine FailsAt.current_bind ?_
  split
  next h =>
    obtain ⟨r, hx⟩ := ahead_of_current (Token.isEnd_eq_false_of_is h)
    have hrest := (spelt_pass (w := [s.current]) hspelt hx).2
    exact failsAt_advance hx (hp _ h _ (remaining_pass_one hx (by omega)) hrest)
  next => exact hq s hs hspelt

/-- Items of one kind with commas between them: behind a comma the list goes on. -/
structure Chains (K L : List Token → Prop) : Prop where
  last : ∀ {w}, K w → L w
  more : ∀ {w q v}, K w → q.is "," = true → L v → L (w ++ q :: v)

/-- Behind the items `v` and a comma a list of items goes on. -/
def GoesOn (L : List Token → Prop) (v : List Token) : Prop :=
  ∀ q w, q.is "," = true → L w → L (v ++ q :: w)

theorem fails_behindCommas {R : Relation α} (hchains : Chains K L) (hp : Fails p n [] K)
    (hd : Denotes p n R) (hR : ∀ w r a, (∀ t ∈ w, t.Spelt) → R w r a → K w) :
    ∀ m ≤ n, ∀ v, GoesOn L v → Fails (behindCommas p m) m v L := by
  intro m
  induction m with
  | zero => exact fun _ v _ => fails_pure []
  | succ m ih =>
    intro hm v hv
    refine fails_take "," (Nat.le_refl _) (fun x hx => ?_) (fails_pure [])
    refine (hp.mono (by omega)).part (hd.mono (by omega)) hR (fun w hw => Grammar.viable_of ?_)
      fun w a hw _ => ?_
    · simpa using hv x w hx (hchains.last hw)
    refine (ih (by omega) _ fun q u hq hu => ?_).bind
      (denotes_behindCommas hd m (by omega)) fun _ _ _ _ _ => fails_pure _
    simpa using hv x _ hx (hchains.more hw hq hu)

theorem fails_commaSeparated {R : Relation α} (hchains : Chains K L) (hp : Fails p n [] K)
    (hd : Denotes p n R) (hR : ∀ w r a, (∀ t ∈ w, t.Spelt) → R w r a → K w) :
    Fails (commaSeparated p n) n [] L := by
  refine hp.part hd hR (fun w hw => Grammar.viable_of (hchains.last hw)) fun w a hw _ => ?_
  exact (fails_behindCommas hchains hp hd hR n (Nat.le_refl n) w fun q u => hchains.more hw).bind
    (denotes_behindCommas hd n (Nat.le_refl n)) fun _ _ _ _ _ => fails_pure _

end Parser

end ExprLang
