import ExprLang.Proofs.Grammar.Soundness
import ExprLang.Proofs.Parser.Failure

/-!
What the rules have read when they fail can be completed, and their errors blame the token where
they stop. Main statement: so it is for the rule of programs.
-/

namespace ExprLang

open ExprLang.Token (starts finishes openBrace closeBrace ofText is_ofText isName_ofText)

namespace Grammar

theorem derives_name : Derives .expression [ofText "x"] :=
  .value (.unary (.primary (.name isName_ofText)))

/-- Any category can be completed from nothing. -/
theorem viable_nil (c : Category) : Viable (Derives c) [] := by
  have htype : Derives .type [ofText "Int"] := .typeName (.inl (is_ofText (by decide)))
  have hname : Derives .primary [ofText "x"] := .name isName_ofText
  cases c with
  | type => exact viable_of_texts ["Int"] (by decide) htype
  | types => exact viable_of_texts ["Int"] (by decide) (.lastType htype)
  | primary => exact viable_of_texts ["x"] (by decide) hname
  | unary => exact viable_of_texts ["x"] (by decide) (.primary hname)
  | binary => exact viable_of_texts ["x"] (by decide) (.unary (.primary hname))
  | expression => exact viable_of_texts ["x"] (by decide) derives_name
  | expressions => exact viable_of_texts ["x"] (by decide) (.last derives_name)
  | statement => exact viable_of_texts ["x"] (by decide) (.statement derives_name)
  | item =>
    exact viable_of_texts ["x", ";"] (by decide)
      (Derives.terminated (w := [_]) (.statement derives_name) (is_ofText (by decide)))
  | items => exact viable_of .noItems
  | program => exact viable_of_texts ["x"] (by decide) (.single (.statement derives_name))

end Grammar

namespace Rule

open ExprLang.Parser ExprLang.Grammar

variable {n : Nat}

theorem fails_functionType {part : Parser Ascription} (hd : Denotes part n Ascribes)
    (h : Fails part n [] (Derives .type)) :
    Fails (functionType part n) (n + 1) [] (Derives .type) := by
  have hchains : Chains (Derives .type) (Derives .types) := ⟨.lastType, .moreTypes⟩
  have harrow : (ofText "=>").is "=>" = true := is_ofText (by decide)
  have hint : Derives .type [ofText "Int"] := .typeName (.inl (is_ofText (by decide)))
  refine fails_expect_bind "(" (Nat.le_refl _) (viable_nil _) fun o ho => ?_
  refine (fails_commaSeparated hchains h hd fun _ _ _ _ ha => ha.sound).part
    (denotes_commaSeparated hd) (fun _ _ _ _ hw => (separated_ascribes_iff.1 hw).sound)
    (fun w hw => viable_of_texts [")", "=>", "Int"] (by decide) ?_) fun w _ hw hv => ?_
  · simpa using Derives.functionType ho hw (is_ofText (by decide)) harrow hint
  refine fails_demand_bind ")" _ (Nat.le_succ n) hv fun c hc => ?_
  refine fails_expect_bind "=>" (Nat.le_succ n) (viable_of_texts ["=>", "Int"] (by decide) ?_)
    fun a ha => ?_
  · simpa using Derives.functionType ho hw hc harrow hint
  refine h.part hd (fun _ _ _ _ hr => hr.sound) (fun v hv => viable_of ?_)
    fun _ _ _ _ => fails_pure _
  simpa using Derives.functionType ho hw hc ha hv

theorem fails_ascription : ∀ n, Fails (ascription n) n [] (Derives .type) := by
  intro n
  induction n with
  | zero => exact fails_unexpected _ (viable_nil _)
  | succ n ih =>
    intro s hs hspelt
    refine FailsAt.current_bind ?_
    split
    · exact fails_functionType (denotes_ascription n) ih s hs hspelt
    split
    next h =>
      obtain ⟨r, hx⟩ := ahead_of_current (s := s) (by simp [Token.isEnd, h.1])
      exact failsAt_advance hx (failsAt_pure _)
    next => exact fails_unexpected _ (viable_nil _) s hs hspelt

variable {operand : Parser Expr}

/-- Behind an operand and an operator stands another operand. -/
theorem fails_leaning (l : Level) (hd : Denotes operand n (Builds (.binary l.next)))
    (h : Fails operand n [] (Derives .binary)) :
    ∀ m ≤ n, ∀ left v, Derives .binary v →
      Fails (leaning l operand m left) m v (Derives .binary) := by
  intro m
  induction m with
  | zero => exact fun _ left v _ => fails_pure left
  | succ m ih =>
    intro hm left v hv s hs hspelt
    refine FailsAt.current_bind ?_
    split
    · exact fails_pure left s hs hspelt
    next op hop =>
      obtain ⟨r, hx⟩ := ahead_of_current (isEnd_of_operatorOf hop)
      have hq := isBinary_of_operatorOf hop
      refine failsAt_advance hx ?_
      have hright : Fails operand m (v ++ [s.current]) (Derives .binary) :=
        (h.mono (by omega)).within fun w hw => viable_of (by simpa using hv.binary_append hq hw)
      refine hright.bind (hd.mono (by omega)) (fun w r right hspelt hw => ?_) _
        (remaining_pass_one hx hs) (spelt_pass (w := [s.current]) hspelt hx).2
      exact ih (by omega) _ _ (by simpa using hv.binary_append hq (hw.sound hspelt))

theorem fails_assignment (target : Expr) {value : Parser Expr} {v : List Token}
    (hv : Derives .binary v) (hd : Denotes value n (Builds .expression))
    (h : Fails value n [] (Derives .expression)) :
    Fails (assignment target value) (n + 1) v (Derives .expression) := by
  refine fails_expect_bind "=" (Nat.le_refl _) (viable_of_texts ["=", "x"] (by decide) ?_)
    fun q hq => ?_
  · exact .assignment hv (is_ofText (by decide)) derives_name
  refine h.part hd (fun _ _ _ hs hw => hw.sound hs) (fun w hw => viable_of ?_)
    fun _ _ _ _ => fails_pure _
  simpa using Derives.assignment hv hq hw

/-- Behind the tokens `v` a declaration goes on with its value. -/
def Header (v : List Token) : Prop :=
  ∀ q w, q.is "=" = true → Derives .expression w → Derives .statement (v ++ q :: w)

theorem Header.viable {v : List Token} (h : Header v) : Viable (Derives .statement) v :=
  viable_of_texts ["=", "x"] (by decide) (h _ _ (is_ofText (by decide)) derives_name)

section Header

variable {d t : Token} (hd : d.is "var" = true) (ht : t.IsName)

include hd ht

theorem header_ascribed {c : Token} {w : List Token} (hc : c.is ":" = true)
    (hw : Derives .type w) : Header (d :: t :: c :: w) :=
  fun _ _ hq hv => .ascribed hd ht hc hw hq hv

theorem fails_ascriptionOption :
    Fails (ascriptionOption n) n [d, t] (Derives .statement) := by
  refine fails_take ":" (Nat.le_succ n) (fun c hc => ?_) (fails_pure none)
  exact (fails_ascription n).part (denotes_ascription n) (fun _ _ _ _ hw => hw.sound)
    (fun w hw => (header_ascribed hd ht hc hw).viable) fun _ _ _ _ => fails_pure _

theorem header_of_ascribesOption {w r : List Token} {a : Option Ascription}
    (ha : AscribesOption w r a) : Header ([d, t] ++ w) := by
  rcases ha with ⟨rfl, -, -⟩ | ⟨c, w, b, rfl, hc, hw, -⟩
  · exact fun q w hq hw => .declaration hd ht hq hw
  · exact header_ascribed hd ht hc hw.sound

end Header

/-- Any statement is the only one of a block if a semicolon follows. -/
theorem viable_blockBody {w : List Token} (h : Derives .statement w) : Viable BlockBody w :=
  viable_of_texts [";"] (by decide) (.inl ⟨[], w, _, rfl, .noItems, h, is_ofText (by decide)⟩)

/-- So is any statement of a program. -/
theorem viable_items {w : List Token} (h : Derives .statement w) :
    Viable (Derives (.items none)) w := by
  have hitem : Derives (.item none) (w ++ [ofText ";"]) := .terminated h (is_ofText (by decide))
  refine viable_of_texts [";"] (by decide) ?_
  have hitems : Derives (.items none) ((w ++ [ofText ";"]) ++ []) := .moreItems hitem .noItems
  rwa [List.append_nil] at hitems

/-- What the tokens of a statement tell of the error that it is no result. -/
theorem declaration_place {w r : List Token} {e : Expr} (h : Builds .statement w r e)
    (he : e.isDeclaration = true) : ∃ t ∈ w, t.is "var" = true ∧ e.span.start = t.location := by
  cases h with
  | declaration hd => exact ⟨_, List.mem_cons_self, hd, rfl⟩
  | ascribed hd => exact ⟨_, List.mem_cons_self, hd, rfl⟩
  | statement _ h =>
    have hvalue : e.isDeclaration = false := h.values e List.mem_cons_self
    rw [hvalue] at he
    cases he

/-- Lists of items that another item can be put in front of, which some token other than an
operator starts if any does. -/
structure ItemList (L : List Token → Prop) : Prop where
  cons : ∀ {w v}, Derives (.item v.head?) w → L v → L (w ++ v)
  start : ∃ u, (∀ t ∈ u, t.Spelt) ∧ L u ∧ ∀ t ∈ u.head?, t.is ";" = false ∧ t.is "-" = false

theorem itemList_blockBody : ItemList BlockBody where
  cons hw hv := hv.cons hw
  start := ⟨[ofText "x"], by simpa using Token.spelt_ofText (by decide),
    .inr ⟨[], _, rfl, .noItems, derives_name⟩, by decide⟩

theorem itemList_items : ItemList (Derives (.items none)) where
  cons hw hv := .moreItems (by rwa [Option.or_none]) hv
  start := ⟨[], by simp, .noItems, by simp⟩

section Behind

variable {s : TokenStream} {v u : List Token} {item : Expr} {L : List Token → Prop}

/-- Behind a statement that a semicolon ends, the other items fail as they do alone. -/
theorem fails_terminated {α : Type} {rest : Parser α} {q : Token} (hL : ItemList L)
    (h : Fails rest n [] L) (hv : Derives .statement v) (hq : q.is ";" = true) :
    Fails rest n (v ++ [q]) L :=
  h.within fun _ hw => viable_of (hL.cons (.terminated hv hq) hw)

/-- Behind a statement that its own brace ends, so they do too: the token that follows it, if one is
read, is neither a semicolon nor an operator. -/
theorem failsAt_closed {α : Type} {rest : Parser α} (hL : ItemList L) (h : Fails rest n [] L)
    (hv : s.ahead = v ++ u) (hspelt : ∀ t ∈ s.ahead, t.Spelt) (hs : (s.pass v).remaining ≤ n)
    (hitem : Builds .statement v u item) (hf : finishes v closeBrace = true)
    (hq : starts (s.pass v).ahead ";" = false) : FailsAt rest (s.pass v) v L := by
  obtain ⟨hspeltv, hspelt⟩ := spelt_pass hspelt hv
  have hahead := TokenStream.ahead_pass hv
  have hst : Derives .statement v := (hitem.sound hspeltv).1
  intro e t hrun
  obtain ⟨w, r, hw, ht, hfaults, hviable⟩ := h _ hs hspelt e t hrun
  refine ⟨w, r, hw, ht, hfaults.behind v, ?_⟩
  cases w with
  | nil =>
    obtain ⟨x, hx, hbody, hnext⟩ := hL.start
    exact ⟨x, hx, by simpa using hL.cons (.closed hst hf hnext) hbody⟩
  | cons y w =>
    obtain ⟨x, hx, hbody⟩ := hviable
    have hy : y ∈ u.head? := by
      rw [← hahead, hw]
      rfl
    rw [hahead] at hq
    have hsemicolon : y.is ";" = false := by simpa using Token.starts_eq_false_iff.1 hq y hy
    have hminus : y.is "-" = false := (hitem.stops y hy).1 .minus (by decide)
    refine ⟨x, hx, ?_⟩
    rw [List.append_assoc]
    exact hL.cons (.closed hst hf (by simpa using ⟨hsemicolon, hminus⟩)) hbody

theorem failsAt_behindItem {rest : Parser (List Expr × Expr)} (hd : Denotes rest n Items)
    (h : Fails rest n [] BlockBody) (hv : s.ahead = v ++ u) (hspelt : ∀ t ∈ s.ahead, t.Spelt)
    (hs : (s.pass v).remaining ≤ n) (hitem : Builds .statement v u item) :
    FailsAt (behindItem rest item) (s.pass v) v BlockBody := by
  obtain ⟨hspeltv, hspeltu⟩ := spelt_pass hspelt hv
  have hst : Derives .statement v := (hitem.sound hspeltv).1
  refine FailsAt.current_bind ?_
  split
  next hq =>
    obtain ⟨r, hx⟩ := ahead_of_current (Token.isEnd_eq_false_of_is hq)
    exact failsAt_advance hx (((fails_terminated itemList_blockBody h hst hq).bind hd
      fun _ _ _ _ _ => fails_pure _) _ (remaining_pass_one hx (Nat.le_succ_of_le hs))
      (spelt_pass (w := [(s.pass v).current]) hspeltu hx).2)
  next hq =>
    rw [Bool.not_eq_true, TokenStream.current_is] at hq
    refine FailsAt.test ?_
    rw [followsBrace_pass (hitem.ne_nil rfl) s hq]
    split
    next hb =>
      rw [Bool.and_eq_true] at hb
      exact (failsAt_closed itemList_blockBody h hv hspelt hs hitem hb.1 hq).bind (hd _ hs)
        fun _ _ _ _ _ => failsAt_pure _
    next hb =>
      split
      next hdecl =>
        have hunended : Unended v (s.pass v).ahead item :=
          ⟨by rwa [TokenStream.ahead_pass hv], hq, fun hf => by simpa [hf] using hb⟩
        intro e t hrun
        cases hrun
        obtain ⟨x, hx, hvar, hplace⟩ := declaration_place hitem hdecl
        refine ⟨[], (s.pass v).ahead, rfl, rfl, ?_, by simpa using viable_blockBody hst⟩
        rw [List.append_nil]
        exact ⟨⟨x, hx, hvar, hplace⟩, fun _ => ⟨[], v, item, rfl, hunended, hdecl, rfl⟩⟩
      next => exact failsAt_pure _

theorem failsAt_behindStatement {rest : Parser (List Expr)}
    (hd : Exhausts rest n (Statements false)) (h : Fails rest n [] (Derives (.items none)))
    (hv : s.ahead = v ++ u) (hspelt : ∀ t ∈ s.ahead, t.Spelt) (hs : (s.pass v).remaining ≤ n)
    (hitem : Builds .statement v u item) (isFirst : Bool) :
    FailsAt (behindStatement rest isFirst item) (s.pass v) v (Derives (.items none)) := by
  obtain ⟨hspeltv, hspeltu⟩ := spelt_pass hspelt hv
  have hst : Derives .statement v := (hitem.sound hspeltv).1
  refine FailsAt.current_bind ?_
  split
  next hq =>
    obtain ⟨r, hx⟩ := ahead_of_current (Token.isEnd_eq_false_of_is hq)
    have hspeltr := (spelt_pass (w := [(s.pass v).current]) hspeltu hx).2
    have hsr := remaining_pass_one hx (Nat.le_succ_of_le hs)
    exact failsAt_advance hx ((fails_terminated itemList_items h hst hq _ hsr hspeltr).bind
      (hd _ hsr fun t ht => (hspeltr t ht).isEnd) fun _ _ _ _ _ => failsAt_pure _)
  next hq =>
    rw [Bool.not_eq_true, TokenStream.current_is] at hq
    refine FailsAt.test ?_
    split
    next hb =>
      rw [TokenStream.previousIs_pass (hitem.ne_nil rfl)] at hb
      exact (failsAt_closed itemList_items h hv hspelt hs hitem hb hq).bind
        (hd _ hs fun t ht => (hspeltu t ht).isEnd) fun _ _ _ _ _ => failsAt_pure _
    next =>
      refine FailsAt.test ?_
      split
      · exact failsAt_pure _
      · exact fails_unexpected _ (viable_items hst) _ (Nat.le_refl _) hspeltu

end Behind

theorem fails_blockItems {statement : Parser Expr} (hd : Denotes statement n (Builds .statement))
    (h : Fails statement n [] (Derives .statement)) :
    ∀ m ≤ n, Fails (blockItems statement m) m [] BlockBody := by
  have hfirst : Fails statement n [] BlockBody := h.within fun w hw => viable_blockBody hw
  intro m
  induction m with
  | zero => exact fun hm => (hfirst.mono hm).bind (hd.mono hm) fun _ _ _ _ _ => fails_pure _
  | succ m ih =>
    intro hm s hs hspelt
    refine FailsAt.current_bind ?_
    split
    · exact failsAt_pure _
    refine (hfirst s (by omega) hspelt).bind (hd s (by omega)) fun v u item hv hitem => ?_
    have hlen : 0 < v.length := List.length_pos_iff.2 (hitem.ne_nil rfl)
    rw [remaining_of_ahead hv] at hs
    exact failsAt_behindItem (denotes_blockItems hd m (by omega)) (ih (by omega)) hv hspelt
      (by omega) hitem

theorem fails_statements {statement : Parser Expr} (hd : Denotes statement n (Builds .statement))
    (h : Fails statement n [] (Derives .statement)) :
    ∀ m ≤ n, ∀ isFirst, Fails (statements statement m isFirst) m [] (Derives (.items none)) := by
  have hfirst : Fails statement n [] (Derives (.items none)) :=
    h.within fun w hw => viable_items hw
  intro m
  induction m with
  | zero => exact fun _ _ => fails_pure []
  | succ m ih =>
    intro hm isFirst s hs hspelt
    refine FailsAt.test ?_
    split
    next =>
      refine (hfirst s (by omega) hspelt).bind (hd s (by omega)) fun v u item hv hitem => ?_
      have hlen : 0 < v.length := List.length_pos_iff.2 (hitem.ne_nil rfl)
      rw [remaining_of_ahead hv] at hs
      exact failsAt_behindStatement (exhausts_statements hd m (by omega) false)
        (ih (by omega) false) hv hspelt (by omega) hitem isFirst
    next => exact failsAt_pure []

section Operands

variable (hd : Denotes operand n (Builds .operand)) (h : Fails operand n [] (Derives .unary))

include hd h

theorem fails_binary (l : Level) : Fails (binary operand n l) n [] (Derives .binary) := by
  have hlast : Fails (binary operand n .unary) n [] (Derives .binary) :=
    h.within fun w hw => viable_of (.unary hw)
  have hstep (l : Level) (hl : l ≠ .unary)
      (hnext : Fails (binary operand n l.next) n [] (Derives .binary)) :
      Fails (binary operand n l) n [] (Derives .binary) := by
    have htiers : binary operand n l = tier n l (binary operand n l.next) := by
      simp [binary, Level.tiers_next hl]
    rw [htiers]
    refine hnext.bind (denotes_binary hd l.next) fun w r a hspelt hw => ?_
    exact fails_leaning l (denotes_binary hd l.next) hnext n (Nat.le_refl n) a _ (hw.sound hspelt)
  have hmul := hstep .multiplicative (by decide) hlast
  have hadd := hstep .additive (by decide) hmul
  have hrel := hstep .relational (by decide) hadd
  have heq := hstep .equality (by decide) hrel
  have hand := hstep .and (by decide) heq
  cases l with
  | or => exact hstep .or (by decide) hand
  | and => exact hand
  | equality => exact heq
  | relational => exact hrel
  | additive => exact hadd
  | multiplicative => exact hmul
  | unary => exact hlast

theorem fails_expression : ∀ m ≤ n, Fails (expression operand m) m [] (Derives .expression) := by
  intro m
  induction m with
  | zero =>
    intro hm
    exact (fails_binary (hd.mono hm) (h.mono hm) .or).within fun w hw => viable_of (.value hw)
  | succ m ih =>
    intro hm
    refine (fails_binary (hd.mono hm) (h.mono hm) .or).part (denotes_binary (hd.mono hm) .or)
      (fun _ _ _ hs hw => hw.sound hs) (fun w hw => viable_of (.value hw)) fun w target hw _ => ?_
    refine fails_ite "=" ?_ (fails_pure target)
    exact fails_assignment target hw (denotes_expression hd m (by omega)) (ih (by omega))

/-- An expression as a part of the whole. -/
theorem fails_expression_bind {α : Type} {f : Expr → Parser α} {v : List Token}
    {L : List Token → Prop} (hL : ∀ w, Derives .expression w → Viable L (v ++ w))
    (hf : ∀ w e, Derives .expression w → Viable L (v ++ w) → Fails (f e) n (v ++ w) L) :
    Fails (expression operand n >>= f) n v L :=
  (fails_expression hd h n (Nat.le_refl n)).part (denotes_expression hd n (Nat.le_refl n))
    (fun _ _ _ hs hw => hw.sound hs) hL hf

theorem fails_declaration :
    Fails (declaration operand n) (n + 1) [] (Derives .statement) := by
  refine fails_expect_bind "var" (Nat.le_refl _) (viable_nil _) fun d hvar => ?_
  refine (fails_identifier (viable_of_texts ["x", "=", "x"] (by decide) ?_)).bind denotes_identifier
    fun _ _ name _ hname => ?_
  · exact .declaration hvar isName_ofText (is_ofText (by decide)) derives_name
  obtain ⟨t, rfl, ht, -⟩ := hname
  refine (fails_ascriptionOption hvar ht).bind denotes_ascriptionOption fun w r written _ hw => ?_
  have hheader := header_of_ascribesOption hvar ht hw
  refine fails_expect_bind "=" (Nat.le_succ n) hheader.viable fun q hq => ?_
  refine fails_expression_bind hd h (fun v hv => viable_of ?_) fun _ _ _ _ => fails_pure _
  simpa using hheader q v hq hv

theorem fails_statement : Fails (statement operand n) n [] (Derives .statement) :=
  fails_ite "var" ((fails_declaration hd h).mono (Nat.le_succ n))
    ((fails_expression hd h n (Nat.le_refl n)).within fun _ hw => viable_of (.statement hw))

theorem fails_block : Fails (block operand n) (n + 1) [] (Derives .primary) := by
  have hitems := denotes_blockItems (denotes_statement hd) n (Nat.le_refl n)
  have hclose : (ofText closeBrace).is closeBrace = true := is_ofText (by decide)
  refine fails_expect_bind openBrace (Nat.le_refl _) (viable_nil _) fun o ho => ?_
  have hbody (w : List Token) (hw : BlockBody w) : Viable (Derives .primary) ([o] ++ w) := by
    refine viable_of_texts [closeBrace] (by decide) ?_
    simpa using hw.derives ho hclose
  refine ((fails_blockItems (denotes_statement hd) (fails_statement hd h) n (Nat.le_refl n)).within
    hbody).bind hitems fun w r x hspelt hw => ?_
  refine fails_demand_bind closeBrace _ (Nat.le_succ n) ?_ fun _ _ => fails_pure _
  rcases hw.sound hspelt with ⟨rfl, -⟩ | hw
  · exact viable_of_texts [closeBrace] (by decide) (.emptyBlock ho hclose)
  · exact hbody w hw

theorem fails_grouping : Fails (grouping operand n) (n + 1) [] (Derives .primary) := by
  refine fails_expect_bind "(" (Nat.le_refl _) (viable_nil _) fun o ho => ?_
  refine fails_expression_bind hd h (fun w hw => viable_of_texts [")"] (by decide) ?_)
    fun w _ _ hv => fails_expect_bind ")" (Nat.le_succ n) hv fun _ _ => fails_pure _
  simpa using Derives.grouping ho hw (is_ofText (by decide))

theorem fails_conditional : Fails (conditional operand n) (n + 1) [] (Derives .primary) := by
  refine fails_expect_bind "if" (Nat.le_refl _) (viable_nil _) fun i hi => ?_
  refine fails_expression_bind hd h (fun c hc => viable_of_texts ["then", "x"] (by decide) ?_)
    fun c _ hc hv => ?_
  · simpa using Derives.ifThen hi hc (is_ofText (by decide)) derives_name
  refine fails_expect_bind "then" (Nat.le_succ n) hv fun t ht => ?_
  refine fails_expression_bind hd h (fun w hw => viable_of ?_) fun w _ hw _ => ?_
  · simpa using Derives.ifThen hi hc ht hw
  refine fails_take "else" (Nat.le_succ n) (fun l hl => ?_) (fails_pure _)
  refine fails_expression_bind hd h (fun v hv => viable_of ?_) fun _ _ _ _ => fails_pure _
  simpa using Derives.ifThenElse hi hc ht hw hl hv

theorem fails_loop : Fails (loop operand n) (n + 1) [] (Derives .primary) := by
  refine fails_expect_bind "while" (Nat.le_refl _) (viable_nil _) fun i hi => ?_
  refine fails_expression_bind hd h (fun c hc => viable_of_texts ["do", "x"] (by decide) ?_)
    fun c _ hc hv => ?_
  · simpa using Derives.loop hi hc (is_ofText (by decide)) derives_name
  refine fails_expect_bind "do" (Nat.le_succ n) hv fun d hdo => ?_
  refine fails_expression_bind hd h (fun w hw => viable_of ?_) fun _ _ _ _ => fails_pure _
  simpa using Derives.loop hi hc hdo hw

theorem fails_arguments : Fails (arguments operand n) n [] (Derives .expressions) :=
  fails_ite ")" (fails_pure []) (fails_commaSeparated ⟨.last, .more⟩
    (fails_expression hd h n (Nat.le_refl n)) (denotes_expression hd n (Nat.le_refl n))
    fun _ _ _ hs hw => hw.sound hs)

/-- A call goes on behind its name. -/
theorem fails_call {f : Token} (hf : f.IsName) (callee : Identifier) :
    Fails (call operand n callee) (n + 1) [f] (Derives .primary) := by
  have hclose : (ofText ")").is ")" = true := is_ofText (by decide)
  refine fails_expect_bind "(" (Nat.le_refl _) (viable_of (.name hf)) fun o ho => ?_
  have harguments (w : List Token) (hw : Derives .expressions w) :
      Viable (Derives .primary) ([f] ++ [o] ++ w) := by
    refine viable_of_texts [")"] (by decide) ?_
    simpa using Derives.call hf ho hw hclose
  refine ((fails_arguments hd h).within harguments).bind (denotes_arguments hd)
    fun w r es hspelt hw => ?_
  refine fails_demand_bind ")" _ (Nat.le_succ n) ?_ fun _ _ => fails_pure _
  rcases hw with ⟨rfl, -, -⟩ | ⟨-, hw⟩
  · exact viable_of_texts [")"] (by decide) (.callEmpty hf ho hclose)
  · exact harguments w (hw.sound hspelt)

theorem fails_nameOrCall : Fails (nameOrCall operand n) (n + 1) [] (Derives .primary) := by
  refine (fails_identifier (viable_nil _)).bind_consuming denotes_identifier consuming_named
    fun _ _ name _ hname => ?_
  obtain ⟨f, rfl, hf, -⟩ := hname
  exact fails_ite "(" ((fails_call hd h hf name).mono (Nat.le_succ n)) (fails_pure _)

theorem failsAt_signed {s : TokenStream} (hs : s.remaining ≤ n + 1)
    (hspelt : ∀ t ∈ s.ahead, t.Spelt) (ht : s.current.isOneOf ["-", "not"] = true) :
    FailsAt (signed operand) s [] (Derives .unary) := by
  refine FailsAt.current_bind ?_
  split
  · exact fails_unexpected _ (viable_nil _) s hs hspelt
  obtain ⟨r, hx⟩ := ahead_of_current (Token.isEnd_eq_false_of_isOneOf ht)
  have hinner : Fails operand n [s.current] (Derives .unary) :=
    h.within fun w hw => viable_of (.signed (by simpa [Token.isOneOf] using ht) hw)
  exact failsAt_advance hx ((hinner.bind hd fun _ _ _ _ _ => fails_pure _) _
    (remaining_pass_one hx hs) (spelt_pass (w := [s.current]) hspelt hx).2)

omit hd h

theorem failsAt_integer {s : TokenStream} (hs : s.current.isEnd = false) :
    FailsAt integer s [] (Derives .unary) := by
  refine FailsAt.current_bind ?_
  split
  · intro e t hrun
    cases hrun
    exact ⟨[], s.ahead, rfl, rfl, Error.faults_of_ne ⟨rfl, rfl⟩ (by simp), viable_nil _⟩
  · obtain ⟨r, hx⟩ := ahead_of_current hs
    exact failsAt_advance hx (failsAt_pure _)

include hd h

theorem fails_primary : Fails (primary operand n) (n + 1) [] (Derives .unary) := by
  have hprimary {p : Parser Expr} (hp : Fails p (n + 1) [] (Derives .primary)) :
      Fails p (n + 1) [] (Derives .unary) := hp.within fun w hw => viable_of (.primary hw)
  intro s hs hspelt
  refine FailsAt.current_bind ?_
  split
  · exact hprimary (fails_grouping hd h) s hs hspelt
  split
  · exact hprimary (fails_block hd h) s hs hspelt
  split
  next ht => exact failsAt_signed hd h hs hspelt ht
  split
  · exact hprimary (fails_conditional hd h) s hs hspelt
  split
  · exact hprimary (fails_loop hd h) s hs hspelt
  split
  next hk => exact failsAt_integer (by simp [Token.isEnd, hk])
  next hk =>
    intro e t hrun
    cases hrun
  · split
    · exact fails_unexpected _ (viable_nil _) s hs hspelt
    · exact hprimary (fails_nameOrCall hd h) s hs hspelt
  all_goals exact fails_unexpected _ (viable_nil _) s hs hspelt

end Operands

theorem fails_operand : ∀ n, Fails (Rule.operand n) n [] (Derives .unary) := by
  intro n
  induction n with
  | zero => exact fails_unexpected _ (viable_nil _)
  | succ n ih => exact fails_primary (denotes_operand n) ih

/-- A program fails at the first token that cannot go on with what was read. -/
theorem fails_program (n : Nat) : Fails (program n) n [] (Derives .program) := by
  have hdenotes := denotes_statement (denotes_operand n)
  have hfails := fails_statement (denotes_operand n) (fails_operand n)
  intro s hs hspelt
  rw [program_eq]
  refine ((fails_statements hdenotes hfails n (Nat.le_refl n) true).within (v := [])
    (fun w hw => ?_) s hs hspelt).bind (exhausts_statements hdenotes n (Nat.le_refl n) true s hs
    fun t ht => (hspelt t ht).isEnd) fun w r es hw hes => ?_
  · by_cases hne : w = []
    · rw [hne]
      exact viable_nil _
    · exact viable_of (.several hne hw)
  obtain ⟨-, hes⟩ := hes
  match es with
  | [] =>
    cases hes
    exact fails_unexpected _ (viable_nil _) _ (Nat.le_refl _) (spelt_pass hspelt hw).2
  | [only] => exact failsAt_pure only
  | first :: second :: rest => exact failsAt_pure _

end Rule

end ExprLang
