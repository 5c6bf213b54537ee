import ExprLang.Proofs.Grammar.Ascriptions
import ExprLang.Proofs.Grammar.Operators

/-!
The rules of declarations, statements and blocks succeed exactly on their readings, if operands
do.
-/

namespace ExprLang

open ExprLang.Parser ExprLang.Token

namespace Rule

variable {n : Nat}

/-- The readings of an ascription that may be left out. -/
def AscribesOption : Relation (Option Ascription) := fun w r a =>
  (w = [] ∧ starts r ":" = false ∧ a = none) ∨
    ∃ c v b, w = c :: v ∧ c.is ":" = true ∧ Ascribes v r b ∧ a = some b

theorem denotes_ascriptionOption : Denotes (ascriptionOption n) n AscribesOption := by
  refine ((denotes_take (c := fun t => t.is ":" = true) (fun t => isEnd_eq_false_of_is)
    (fun _ => (denotes_ascription n).bind fun a => denotes_pure (some a))
    (denotes_pure none)).mono (Nat.le_succ n)).congr ?_
  intro w r a _
  constructor
  · rintro (⟨c, v, rfl, hc, v, _, b, rfl, hb, rfl, rfl⟩ | ⟨hr, rfl, rfl⟩)
    · exact .inr ⟨c, v, b, by simp, hc, by simpa using hb, rfl⟩
    · exact .inl ⟨rfl, starts_eq_false_iff.2 hr, rfl⟩
  · rintro (⟨rfl, hr, rfl⟩ | ⟨c, v, b, rfl, hc, hb, rfl⟩)
    · exact .inr ⟨starts_eq_false_iff.1 hr, rfl, rfl⟩
    · exact .inl ⟨c, v, rfl, hc, v, [], b, by simp, by simpa using hb, rfl, rfl⟩

theorem denotes_declaration {operand : Parser Expr} (h : Denotes operand n (Builds .operand)) :
    Denotes (declaration operand n) (n + 1) fun w r e =>
      starts w "var" = true ∧ Builds .statement w r e := by
  refine ((denotes_expect "var").bind_consuming (consuming_one _) fun d =>
    denotes_identifier.bind fun n => denotes_ascriptionOption.bind fun written =>
    (denotes_expect "=").bind fun _ => (denotes_expression h _ (Nat.le_refl _)).bind fun value =>
    denotes_pure _).congr ?_
  intro w r e _
  constructor
  · rintro ⟨_, _, d, rfl, ⟨rfl, hd⟩, _, _, i, rfl, ⟨t, rfl, ht, rfl⟩, v, _, written, rfl, hv,
      _, _, q, rfl, ⟨rfl, hq⟩, x, _, value, rfl, hx, rfl, rfl⟩
    refine ⟨hd, ?_⟩
    rcases hv with ⟨rfl, hr, rfl⟩ | ⟨c, v, a, rfl, hc, ha, rfl⟩
    · simpa using Grammar.Reading.declaration hd ht hq (by simpa using hr) (by simpa using hx)
    · simpa using Grammar.Reading.ascribed hd ht hc (by simpa using ha) hq (by simpa using hx)
  · rintro ⟨hd, hs⟩
    cases hs with
    | declaration hd ht hq hc hx =>
      refine ⟨[_], _, _, rfl, ⟨rfl, hd⟩, [_], _, _, rfl, ⟨_, rfl, ht, rfl⟩, [], _, _, rfl,
        .inl ⟨rfl, by simpa using hc, rfl⟩, [_], _, _, rfl, ⟨rfl, hq⟩, _, [], _,
        (List.append_nil _).symm, by simpa using hx, rfl, rfl⟩
    | ascribed hd ht hc ha hq hx =>
      refine ⟨[_], _, _, rfl, ⟨rfl, hd⟩, [_], _, _, rfl, ⟨_, rfl, ht, rfl⟩, _ :: _, _, _, rfl,
        .inr ⟨_, _, _, rfl, hc, by simpa using ha, rfl⟩, [_], _, _, rfl, ⟨rfl, hq⟩, _, [], _,
        (List.append_nil _).symm, by simpa using hx, rfl, rfl⟩
    | statement hn => rw [hd] at hn; cases hn

theorem denotes_statement {operand : Parser Expr} (h : Denotes operand n (Builds .operand)) :
    Denotes (statement operand n) n (Builds .statement) := by
  refine (denotes_ite "var" ((denotes_declaration h).mono (Nat.le_succ n))
    (denotes_expression h n (Nat.le_refl n))).congr ?_
  intro w r e _
  constructor
  · rintro (⟨-, -, he⟩ | ⟨hn, he⟩)
    · exact he
    · exact .statement (by rwa [starts_append (he.ne_nil rfl)] at hn) he
  · intro he
    rw [starts_append (he.ne_nil rfl)]
    cases hw : starts w "var" with
    | true => exact .inl ⟨rfl, rfl, he⟩
    | false =>
      cases he with
      | declaration hd => simp [hd] at hw
      | ascribed hd => simp [hd] at hw
      | statement _ he => exact .inr ⟨rfl, he⟩

/-- The readings of the items of a block, the result apart. -/
def Items : Relation (List Expr × Expr) := fun w r x => Grammar.Reading .items w r (x.1 ++ [x.2])

/-- What may follow an item of a block, and the items that come of it. -/
def BehindItem (v : List Token) (item : Expr) : Relation (List Expr × Expr) := fun u r x =>
  (∃ q u' y, u = q :: u' ∧ q.is ";" = true ∧ Items u' r y ∧ x = (item :: y.1, y.2)) ∨
    (starts (u ++ r) ";" = false ∧ finishes v closeBrace = true ∧
      starts (u ++ r) closeBrace = false ∧ ∃ y, Items u r y ∧ x = (item :: y.1, y.2)) ∨
    (starts (u ++ r) ";" = false ∧ (finishes v closeBrace = true →
      starts (u ++ r) closeBrace = true) ∧ item.isDeclaration = false ∧ u = [] ∧ x = ([], item))

/-- Where a block ends without a result, the unit value stands for it. -/
def LeftOut : Relation (List Expr × Expr) := fun w r x =>
  ∃ c r', w = [] ∧ r = c :: r' ∧ c.is closeBrace = true ∧ x = ([], Expr.implicitUnit c.span)

theorem items_iff {w r : List Token} {x : List Expr × Expr} :
    Items w r x ↔ LeftOut w r x ∨
      ∃ v u item, w = v ++ u ∧ starts v closeBrace = false ∧
        Builds .statement v (u ++ r) item ∧ BehindItem v item u r x := by
  constructor
  · intro h
    obtain ⟨es, e⟩ := x
    unfold Items at h
    -- The last item is the result, whichever of the readings it comes from.
    generalize hes : es ++ [e] = items at h
    have hinj {l : List Expr} {res : Expr} (he : es ++ [e] = l ++ [res]) :
        (es, e) = (l, res) := by
      obtain ⟨hss, hres⟩ := List.append_inj' he rfl
      rw [hss, List.singleton_inj.1 hres]
    cases h with
    | leftOut hc =>
      cases hinj (l := []) hes
      exact .inl ⟨_, _, rfl, rfl, hc, rfl⟩
    | terminated hv hs hq h =>
      obtain ⟨ss, res, rfl⟩ := h.exists_result
      exact .inr ⟨_, _, _, rfl, hv, hs, .inl ⟨_, _, (ss, res), rfl, hq, h, hinj (l := _ :: ss) hes⟩⟩
    | closed hv hs hf hq hc h =>
      obtain ⟨ss, res, rfl⟩ := h.exists_result
      exact .inr ⟨_, _, _, rfl, hv, hs,
        .inr (.inl ⟨hq, hf, hc, (ss, res), h, hinj (l := _ :: ss) hes⟩)⟩
    | result hv hs hq hf hd =>
      exact .inr ⟨w, [], _, by simp, hv, by simpa using hs,
        .inr (.inr ⟨by simpa using hq, by simpa using hf, hd, rfl, hinj (l := []) hes⟩)⟩
  · rintro (⟨c, r, rfl, rfl, hc, rfl⟩ | ⟨v, u, item, rfl, hv, hs,
      ⟨q, u, y, rfl, hq, hy, rfl⟩ | ⟨hq, hf, hc, y, hy, rfl⟩ | ⟨hq, hf, hd, rfl, rfl⟩⟩)
    · exact .leftOut hc
    · exact .terminated hv hs hq hy
    · exact .closed hv hs hf hq hc hy
    · unfold Items
      rw [List.append_nil]
      exact .result hv (by simpa using hs) (by simpa using hq) (by simpa using hf) hd

theorem followsBrace_pass {v : List Token} (hv : v ≠ []) (s : TokenStream)
    (hq : starts (s.pass v).ahead ";" = false) :
    (s.pass v).followsBrace =
      (finishes v closeBrace && !starts (s.pass v).ahead closeBrace) := by
  simp [TokenStream.followsBrace, TokenStream.previousIs_pass hv, isOneOf,
    TokenStream.current_is, hq]

/-- The readings of the items that stand behind a given one. -/
def Pushed (item : Expr) : Relation (List Expr × Expr) := fun w r x =>
  ∃ y, Items w r y ∧ x = (item :: y.1, y.2)

theorem denotes_push {rest : Parser (List Expr × Expr)} (h : Denotes rest n Items)
    (item : Expr) :
    Denotes (do let (items, result) ← rest; return (item :: items, result)) n (Pushed item) := by
  refine (h.bind fun y => denotes_pure (item :: y.1, y.2)).congr fun w r x _ => ?_
  constructor
  · rintro ⟨v, _, y, rfl, hy, rfl, rfl⟩
    exact ⟨y, by simpa using hy, rfl⟩
  · rintro ⟨y, hy, rfl⟩
    exact ⟨w, [], y, by simp, by simpa using hy, rfl, rfl⟩

/-- Behind an item that no semicolon ends, a closing brace ends the item or the block. -/
theorem denotesAt_followsBrace {push : Parser (List Expr × Expr)} {item : Expr}
    (h : Denotes push n (Pushed item)) {s : TokenStream} {v : List Token} (hv : v ≠ [])
    (hs : (s.pass v).remaining ≤ n) (hq : starts (s.pass v).ahead ";" = false) :
    DenotesAt (do
      if (← get).followsBrace then push
      else if item.isDeclaration then throw ⟨.declarationAsResult, item.span.start⟩
      else return ([], item)) (s.pass v) fun w r x =>
        (finishes v closeBrace = true ∧ starts (w ++ r) closeBrace = false ∧ Pushed item w r x) ∨
          ((finishes v closeBrace = true → starts (w ++ r) closeBrace = true) ∧
            item.isDeclaration = false ∧ w = [] ∧ x = ([], item)) := by
  have hf := followsBrace_pass hv s hq
  -- What stands before the seam is known by its last token only.
  generalize s.pass v = t at hs hq hf
  intro x u
  show (if t.followsBrace then push else
    if item.isDeclaration then throw ⟨.declarationAsResult, item.span.start⟩
    else pure ([], item)) t = .ok x u ↔ _
  cases hb : t.followsBrace with
  | true =>
    rw [hb, Eq.comm, Bool.and_eq_true, Bool.not_eq_true'] at hf
    rw [if_pos rfl, h t hs x u]
    refine exists_congr fun w => exists_congr fun r => and_congr_right fun hw =>
      and_congr_right fun _ => ?_
    simp [← hw, hf.1, hf.2]
  | false =>
    rw [hb, Eq.comm, Bool.and_eq_false_iff, Bool.not_eq_false'] at hf
    have hbrace : finishes v closeBrace = true → starts t.ahead closeBrace = true := by
      intro hv
      rwa [hv, Bool.true_eq_false, false_or] at hf
    rw [if_neg (by simp)]
    cases hd : item.isDeclaration with
    | true =>
      rw [if_pos rfl]
      constructor
      · intro h
        cases h
      · rintro ⟨w, r, hw, -, ⟨hv, hr, -⟩ | ⟨-, hd, -⟩⟩
        · rw [← hw, hbrace hv] at hr
          cases hr
        · cases hd
    | false =>
      rw [if_neg (by simp)]
      refine (denotes_pure ([], item) t hs x u).trans ?_
      refine exists_congr fun w => exists_congr fun r => and_congr_right fun hw =>
        and_congr_right fun _ => ?_
      rw [hw] at hbrace
      constructor
      · intro hx
        exact .inr ⟨hbrace, rfl, hx⟩
      · rintro (⟨hv, hr, -⟩ | ⟨-, -, hx⟩)
        · rw [hbrace hv] at hr
          cases hr
        · exact hx

/-- How a block goes on behind an item, where `rest` reads the other items. -/
def behindItem (rest : Parser (List Expr × Expr)) (item : Expr) : Parser (List Expr × Expr) := do
  if (← current).is ";" then
    let _ ← advance
    let (items, result) ← rest
    return (item :: items, result)
  else if (← get).followsBrace then
    let (items, result) ← rest
    return (item :: items, result)
  else if item.isDeclaration then throw ⟨.declarationAsResult, item.span.start⟩
  else return ([], item)

theorem denotesAt_behindItem {rest : Parser (List Expr × Expr)} (h : Denotes rest n Items)
    {s : TokenStream} {v : List Token} (hv : v ≠ []) (hs : (s.pass v).remaining ≤ n)
    (item : Expr) : DenotesAt (behindItem rest item) (s.pass v) (BehindItem v item) := by
  have hpush := denotes_push h item
  refine (denotesAt_ite ";" (P := fun w r x => ∃ q u, w = q :: u ∧ Pushed item u r x)
    (fun hq => ?_) (denotesAt_followsBrace hpush hv hs)).congr ?_
  · obtain ⟨q, r₀, hx⟩ : ∃ q r₀, (s.pass v).ahead = q :: r₀ := by
      cases ha : (s.pass v).ahead with
      | nil => rw [ha] at hq; cases hq
      | cons q r₀ => exact ⟨q, r₀, rfl⟩
    have hs' := remaining_pass_one hx (Nat.le_succ_of_le hs)
    refine (denotesAt_advance hx (hpush _ hs')).congr fun w r x hw => ?_
    constructor
    · rintro ⟨u, rfl, hu⟩
      exact ⟨q, u, rfl, hu⟩
    · rintro ⟨q', u, rfl, hu⟩
      obtain ⟨rfl, -⟩ := List.cons.inj (hx.symm.trans hw)
      exact ⟨u, rfl, hu⟩
  · intro u r x _
    constructor
    · rintro (⟨hq, q, u, rfl, y, hy, rfl⟩ | ⟨hq, ⟨hf, hc, y, hy, rfl⟩ | ⟨hf, hd, rfl, rfl⟩⟩)
      · exact .inl ⟨q, u, y, rfl, hq, hy, rfl⟩
      · exact .inr (.inl ⟨hq, hf, hc, y, hy, rfl⟩)
      · exact .inr (.inr ⟨hq, hf, hd, rfl, rfl⟩)
    · rintro (⟨q, u, y, rfl, hq, hy, rfl⟩ | ⟨hq, hf, hc, y, hy, rfl⟩ | ⟨hq, hf, hd, rfl, rfl⟩)
      · exact .inl ⟨hq, q, u, rfl, y, hy, rfl⟩
      · exact .inr ⟨hq, .inl ⟨hf, hc, y, hy, rfl⟩⟩
      · exact .inr ⟨hq, .inr ⟨hf, hd, rfl, rfl⟩⟩

theorem denotes_blockItems {statement : Parser Expr}
    (h : Denotes statement n (Builds .statement)) :
    ∀ m ≤ n, Denotes (blockItems statement m) m Items := by
  intro m
  -- By induction on the bound: each item takes a token, and without tokens there is no item.
  induction m with
  | zero =>
    intro _
    refine ((h.mono (Nat.zero_le n)).bind fun e => denotes_pure ([], e)).congr ?_
    intro w r x hlen
    have hnil : w ++ r = [] := List.eq_nil_of_length_eq_zero (Nat.le_zero.1 hlen)
    obtain ⟨rfl, rfl⟩ := List.append_eq_nil_iff.1 hnil
    rw [items_iff]
    constructor
    · rintro ⟨v, u, e, hv, hs, -⟩
      exact absurd (List.append_eq_nil_iff.1 hv.symm).1 (hs.ne_nil rfl)
    · rintro (⟨c, r, -, hr, -⟩ | ⟨v, u, e, hv, -, hs, -⟩)
      · cases hr
      · exact absurd (List.append_eq_nil_iff.1 hv.symm).1 (hs.ne_nil rfl)
  | succ m ih =>
    intro hm s hs
    have hitem : DenotesAt (statement >>= behindItem (blockItems statement m)) s fun w r x =>
        ∃ v u item, w = v ++ u ∧ Builds .statement v (u ++ r) item ∧ BehindItem v item u r x := by
      refine ((h.mono hm) s hs).bind fun v u item hv hst => ?_
      have hne : v ≠ [] := hst.ne_nil rfl
      refine denotesAt_behindItem (ih (by omega)) hne ?_ item
      rw [remaining_of_ahead hv] at hs
      have := List.length_pos_iff.2 hne
      omega
    have hleftOut (c : Token) (r₀ : List Token) (hx : s.ahead = c :: r₀)
        (hc : c.is closeBrace = true) :
        DenotesAt (pure ([], Expr.implicitUnit c.span)) s LeftOut := by
      refine (denotes_pure _ s (Nat.le_refl _)).congr fun w r x hw => ?_
      constructor
      · rintro ⟨rfl, rfl⟩
        exact ⟨c, r₀, rfl, hw.symm.trans hx, hc, rfl⟩
      · rintro ⟨c', r', rfl, rfl, -, rfl⟩
        obtain ⟨rfl, -⟩ := List.cons.inj (hx.symm.trans hw)
        exact ⟨rfl, rfl⟩
    refine (denotesAt_if (fun _ h => is_of_isEnd h _) hleftOut fun _ => hitem).congr ?_
    intro w r x hw
    rw [items_iff]
    constructor
    · rintro (⟨-, hx⟩ | ⟨hc, v, u, item, rfl, hst, hu⟩)
      · exact .inl hx
      · refine .inr ⟨v, u, item, rfl, ?_, hst, hu⟩
        rw [List.append_assoc] at hc
        exact (starts_append (hst.ne_nil rfl) _ _).symm.trans hc
    · rintro (⟨c, r', rfl, rfl, hc, rfl⟩ | ⟨v, u, item, rfl, hv, hst, hu⟩)
      · exact .inl ⟨hc, c, r', rfl, rfl, hc, rfl⟩
      · refine .inr ⟨?_, v, u, item, rfl, hst, hu⟩
        rw [List.append_assoc]
        exact (starts_append (hst.ne_nil rfl) _ _).trans hv

theorem denotes_block {operand : Parser Expr} (h : Denotes operand n (Builds .operand)) :
    Denotes (block operand n) (n + 1) fun w r e => ∃ o v c ss res, w = o :: (v ++ [c]) ∧
      o.is openBrace = true ∧ Grammar.Reading .items v (c :: r) (ss ++ [res]) ∧
      c.is closeBrace = true ∧ e = .block (o.span.through c.span) ss res := by
  refine ((denotes_expect openBrace).bind_consuming (consuming_one _) fun o =>
    (denotes_blockItems (denotes_statement h) n (Nat.le_refl n)).bind fun x =>
    (denotes_demand closeBrace _).bind fun c =>
    denotes_pure (Tree.block (o.span.through c.span) x.1 x.2)).congr ?_
  intro w r e _
  constructor
  · rintro ⟨_, _, o, rfl, ⟨rfl, ho⟩, v, _, x, rfl, hv, _, _, c, rfl, ⟨rfl, hc⟩, rfl, rfl⟩
    exact ⟨o, v, c, x.1, x.2, by simp, ho, hv, hc, rfl⟩
  · rintro ⟨o, v, c, ss, res, rfl, ho, hv, hc, rfl⟩
    exact ⟨[o], _, o, rfl, ⟨rfl, ho⟩, v, [c], (ss, res), rfl, hv, [c], [], c, rfl, ⟨rfl, hc⟩,
      rfl, rfl⟩

end Rule

end ExprLang
