import ExprLang.Proofs.Grammar.Descent
import ExprLang.Proofs.Grammar.Errors

/-!
How far the rules read. Main statement: each of them comes to an end, goes forward, and stops at the
first end mark at the latest.
-/

namespace ExprLang

open ExprLang.Rule (EndFree)
open ExprLang.Sequence (endState)

namespace TokenStream

variable {s t u : TokenStream}

/-- `t` is what `s` is once some tokens are read, none of which is an end mark. -/
def Reaches (s t : TokenStream) : Prop := ∃ w r, s.ahead = w ++ r ∧ EndFree w ∧ t = s.pass w

theorem Reaches.trans (h : s.Reaches t) (h' : t.Reaches u) : s.Reaches u := by
  obtain ⟨v, r, hv, hvend, rfl⟩ := h
  obtain ⟨w, r', hw, hwend, rfl⟩ := h'
  rw [ahead_pass hv] at hw
  refine ⟨v ++ w, r', by rw [hv, hw, List.append_assoc], ?_, (s.pass_append v w).symm⟩
  exact List.forall_mem_append.2 ⟨hvend, hwend⟩

/-- Some end mark is the first one, be it one of the list or the one that closes it. -/
theorem exists_first_end (s : TokenStream) :
    ∃ w r, s.ahead = w ++ r ∧ EndFree w ∧ (s.pass w).current.isEnd = true := by
  obtain ⟨file, previous, ahead, closing, hclosing⟩ := s
  induction ahead generalizing previous with
  | nil => exact ⟨[], [], rfl, by simp [EndFree], hclosing⟩
  | cons x ahead ih =>
    cases hx : x.isEnd with
    | true => exact ⟨[], x :: ahead, rfl, by simp [EndFree], hx⟩
    | false =>
      obtain ⟨w, r, hw, hend, hcurrent⟩ := ih previous
      have hw' : ahead = w ++ r := hw
      refine ⟨x :: w, r, by rw [hw']; rfl, List.forall_mem_cons.2 ⟨hx, hend⟩, ?_⟩
      simpa [pass, current] using hcurrent

end TokenStream

namespace Parser

open TokenStream (Alike)

variable {α : Type} {p : Parser α} {s : TokenStream} {w : List Token}

/-- A parser that looks no further than where it stops does not get past an end mark: it would do
the same on the list that ends there. -/
theorem Local.answers (hp : Local p) (hend : (s.pass w).current.isEnd = true) :
    ∃ v u answer, w = v ++ u ∧ ∀ t, Alike w s t → Answers p t v answer := by
  obtain ⟨v, u, answer, hv, hanswer⟩ :=
    hp ⟨s.file, s.previous, w, (s.pass w).current, hend⟩
  have hv' : w = v ++ u := hv
  refine ⟨v, u, answer, hv', fun t ht => hanswer t ?_⟩
  have hcut : Alike (v ++ u) ⟨s.file, s.previous, w, (s.pass w).current, hend⟩ t := by
    rw [← hv']
    refine ⟨ht.previous, ht.ahead, ?_⟩
    rw [ht.current]
    simp [TokenStream.pass, TokenStream.current]
  exact hcut.first (r := []) (by rw [List.append_nil, ← hv'])

theorem Local.reaches (hp : Local p) (s : TokenStream) : s.Reaches (endState (p s)) := by
  obtain ⟨w, r, hw, hend, hcurrent⟩ := s.exists_first_end
  obtain ⟨v, u, answer, rfl, hanswer⟩ := hp.answers hcurrent
  have hstop : endState (p s) = s.pass v := by
    have h := hanswer s (.refl hw)
    cases answer <;> rw [Answers] at h <;> rw [h] <;> rfl
  rw [hstop]
  exact ⟨v, u ++ r, by rw [hw, List.append_assoc], (List.forall_mem_append.1 hend).1, rfl⟩

end Parser

namespace Grammar.Task

open ExprLang.Parser ExprLang.Rule

variable {α : Type}

/-- The parser of the grammar for a task. -/
def run (task : Task α) : Parser α := bounded task.rule

example (level : Level) : (Task.binary level).run = Grammar.binary level := rfl

theorem local_rule (n : Nat) : ∀ {α : Type} (task : Task α), Local (task.rule n)
  | _, .ascription => local_ascription n
  | _, .functionType => local_functionType (local_ascription n) n
  | _, .moreTypes => local_behindCommas (local_ascription n) n
  | _, .expression => local_expression (local_operand n) n
  | _, .assignment target => local_assignment target (local_expression (local_operand n) n)
  | _, .binary level => local_binary (local_operand n) n level
  | _, .leaning level left =>
    local_leaning level (local_binary (local_operand n) n level.next) n left
  | _, .primary => local_primary (local_operand n) n
  | _, .grouping => local_grouping (local_operand n) n
  | _, .conditional => local_conditional (local_operand n) n
  | _, .loop => local_loop (local_operand n) n
  | _, .block => local_block (local_operand n) n
  | _, .blockItems => local_blockItems (local_statement (local_operand n) n) n
  | _, .call callee => local_call (local_operand n) n callee
  | _, .moreArguments => local_behindCommas (local_expression (local_operand n) n) n
  | _, .statement => local_statement (local_operand n) n
  | _, .declaration => local_declaration (local_operand n) n
  | _, .statements isFirst => local_statements (local_statement (local_operand n) n) n isFirst
  | _, .program => Rule.local_program n

theorem local_run (task : Task α) : Local task.run :=
  local_bounded (fun n => local_rule n task) fun _ _ _ ha hb => (agree_rule ha hb task).weaken

/-- What a task does on a stream that has come from `start`. -/
structure Advances (start s : TokenStream) (task : Task α) : Prop where
  /-- The recursion without bounds ends: what stands below this depth is never called for. -/
  ends : ∀ (cut : {β : Type} → Parser β) (depth : Nat), task.size s.remaining < depth →
    within cut depth task s = task.run s
  forward : s.Reaches (endState (task.run s))
  beforeEnd : start.Reaches (endState (task.run s))
  consumes : ∀ a t, task.run s = .ok a t → t.remaining + task.takes ≤ s.remaining

theorem advances {start s : TokenStream} (hs : start.Reaches s) (task : Task α) :
    task.Advances start s where
  ends cut depth hdepth :=
    (agree_within cut task depth s.remaining s.remaining hdepth (Nat.le_refl _) s (Nat.le_refl _)).1
  forward := task.local_run.reaches s
  beforeEnd := hs.trans (task.local_run.reaches s)
  consumes := (agree_rule (Nat.le_refl s.remaining) (Nat.le_refl _) task s (Nat.le_refl _)).2

end Grammar.Task

namespace Expr

open ExprLang.Parser (Answers)

/-- The tokens behind the first end mark are not read. -/
theorem ofTokens_of_end {w : List Token} {x : Token} (hx : x.isEnd = true)
    (r r' : List Token) (file : String) :
    ofTokens (w ++ x :: r') file = ofTokens (w ++ x :: r) file := by
  obtain ⟨⟨u, hu⟩, hcurrent⟩ := TokenStream.ofTokens_append w x r file
  obtain ⟨_, _, answer, -, hanswer⟩ :=
    Grammar.local_program.answers (by rw [hcurrent, hx])
  have hrun : ∀ ts, TokenStream.Alike w (.ofTokens (w ++ x :: r) file) (.ofTokens ts file) →
      ofTokens ts file = answer := by
    intro ts hts
    have h := hanswer _ hts
    cases answer <;> rw [Answers] at h <;> simp [ofTokens, EStateM.run, h]
  rw [hrun _ (TokenStream.alike_ofTokens (TokenStream.previous_ofTokens _ file) hcurrent r' file),
    hrun _ (.refl hu)]

end Expr

open ExprLang.Grammar

/-- Every rule, and every loop within one, comes to an end at a place that is not behind the first
end mark, and a rule that succeeds has read a token. What stands behind that mark plays no part. -/
theorem Grammar.progress {tokens : List Token} {file : String} {s : TokenStream}
    (hs : (TokenStream.ofTokens tokens file).Reaches s) :
    (∀ (α : Type) (task : Task α), task.Advances (.ofTokens tokens file) s) ∧
      ∀ w x r, tokens = w ++ x :: r → x.isEnd = true → ∀ r',
        Expr.ofTokens (w ++ x :: r') file = Expr.ofTokens tokens file := by
  refine ⟨fun α task => Task.advances hs task, fun w x r htokens hx r' => ?_⟩
  rw [htokens]
  exact Expr.ofTokens_of_end hx r r' file

/-- From the sign on, which has the kind of a number, an expression is read up to the end mark. The
name behind the mark is left out. -/
theorem Grammar.progress_name :
    let name : Token := ⟨.identifier, "a", .null⟩
    let sign : Token := ⟨.integer, "-", .null⟩
    let start := TokenStream.ofTokens [name, sign, name, .endAfter none, name] ""
    let s := start.pass [name]
    let negated : Expr := .unary .null .negate (.identifier .null "a")
    start.Reaches s ∧ Task.expression.Advances start s ∧
      Grammar.expression s = .ok negated (s.pass [sign, name]) ∧
      (s.pass [sign, name]).current.isEnd = true ∧
      (∀ cut : {β : Type} → Parser β,
        Task.within cut 62 .expression s = .ok negated (s.pass [sign, name])) ∧
      Expr.ofTokens [name, sign, name, .endAfter none] "" =
        Expr.ofTokens [name, sign, name, .endAfter none, name] "" := by
  intro name sign start s negated
  have hs : start.Reaches s := ⟨[name], [sign, name, .endAfter none, name], rfl,
    fun _ h => by cases List.mem_singleton.1 h; rfl, rfl⟩
  have hrun : Grammar.expression s = .ok negated (s.pass [sign, name]) := by
    with_unfolding_all rfl
  obtain ⟨hadvances, hend⟩ := Grammar.progress hs
  have hexpression := hadvances Expr .expression
  exact ⟨hs, hexpression, hrun, rfl, fun cut => (hexpression.ends cut 62 (by decide)).trans hrun,
    hend [name, sign, name] (.endAfter none) [name] rfl rfl []⟩

end ExprLang
