import Lookahead.Proofs.ParserRun

/-!
What the parser answers. A run over a queue that ends answers with the tree of the
predictive derivation from its symbol, if there is one, and with the error of the
symbol at which the derivation gets stuck otherwise; and a run ends exactly if one
of the two is the case. The bound on the steps has no part in the answer.
-/
namespace Lookahead

namespace Parse

variable {τ : Type} [TokenStream τ] {g : Grammar} {preferences : SyntaxPreferences}
  {p : Parse τ} {ended : Except SyntaxError ParseOutcome × Parse τ} {bound : Nat}

theorem run_succ (h : p.run g preferences bound = some ended) :
    p.run g preferences (bound + 1) = some ended := by
  induction bound generalizing p with
  | zero => cases h
  | succ bound ih =>
      rw [run] at h ⊢
      split at h
      · exact ih h
      · exact h

theorem run_mono {more : Nat} (hle : bound ≤ more) (h : p.run g preferences bound = some ended) :
    p.run g preferences more = some ended := by
  induction hle with
  | refl => exact h
  | step _ ih => exact run_succ ih

theorem run_unique {other : Nat} {ended' : Except SyntaxError ParseOutcome × Parse τ}
    (h : p.run g preferences bound = some ended)
    (h' : p.run g preferences other = some ended') : ended = ended' := by
  have hmost := run_mono (Nat.le_max_left bound other) h
  rw [run_mono (Nat.le_max_right bound other) h'] at hmost
  exact (Option.some.inj hmost).symm

theorem run_of_reaches {p last q : Parse TokenQueue} {result : Except SyntaxError ParseOutcome}
    (hreaches : Reaches g preferences p last)
    (hstop : last.step g preferences = .stopped result q) :
    ∃ bound, p.run g preferences bound = some (result, q) := by
  induction hreaches using Relation.ReflTransGen.head_induction_on with
  | refl => exact ⟨1, by rw [run, hstop]⟩
  | head hstep _ ih =>
      obtain ⟨bound, hrun⟩ := ih
      exact ⟨bound + 1, by rw [run, hstep]; exact hrun⟩

theorem shows_start (g : Grammar) (symbol : String) (tokens : List Token) :
    (start g symbol (⟨tokens⟩ : TokenQueue)).Shows ([] ++ (waiting g [symbol] ++ []))
      (List.range' 0 1 ++ []) tokens :=
  ⟨rfl, rfl, rfl⟩

end Parse

namespace TokenQueue

/-- The queue begins right after the first of the proper tokens that were left, and
is empty if none was. -/
def BeginsAfter (q : TokenQueue) (tokens : List Token) : List Token → Prop
  | [] => q.tokens = []
  | t :: rest => proper q.tokens = rest ∧ ∃ front, tokens = front ++ t :: q.tokens

/-- The queue begins with the first of the proper tokens that were left. -/
def BeginsWith (q : TokenQueue) (tokens rest : List Token) : Prop :=
  proper q.tokens = rest ∧ q.tokens.head? = rest.head? ∧ q.tokens <:+ tokens

theorem beginsAfter_tail {tokens left : List Token} (hsuffix : left <:+ tokens) :
    (⟨(dropTrivia left).tail⟩ : TokenQueue).BeginsAfter tokens (proper left) := by
  cases hleft : proper left with
  | nil => simp [BeginsAfter, dropTrivia_eq_nil hleft]
  | cons t rest =>
      obtain ⟨tail, hdropped, htail⟩ := dropTrivia_eq_cons hleft
      obtain ⟨front, hfront⟩ := (dropTrivia_suffix left).trans hsuffix
      rw [hdropped] at hfront ⊢
      exact ⟨htail, front, hfront.symm⟩

end TokenQueue

namespace Grammar

variable {τ : Type} [TokenStream τ] {stream : τ} {g : Grammar}
  {preferences : SyntaxPreferences} {symbol : String} {tokens : List Token}

theorem parseAs?_of_run {bound : Nat} {result : Except SyntaxError ParseOutcome} {q : Parse τ}
    (h : (Parse.start g symbol stream).run g preferences bound = some (result, q)) :
    g.parseAs? preferences bound symbol stream =
      some ⟨result, q.stream, q.metrics, q.events.reverse⟩ := by
  rw [parseAs?, h]

theorem run_of_parseAs? {bound : Nat} {run : ParseRun τ}
    (h : g.parseAs? preferences bound symbol stream = some run) :
    ∃ q, (Parse.start g symbol stream).run g preferences bound = some (run.result, q) ∧
      run = ⟨run.result, q.stream, q.metrics, q.events.reverse⟩ := by
  rw [parseAs?] at h
  split at h
  · cases h
  · rename_i result q hrun
    cases h
    exact ⟨q, hrun, rfl⟩

theorem parseAs?_unique {bound other : Nat} {run run' : ParseRun τ}
    (h : g.parseAs? preferences bound symbol stream = some run)
    (h' : g.parseAs? preferences other symbol stream = some run') : run = run' := by
  obtain ⟨q, hrun, hparts⟩ := run_of_parseAs? h
  obtain ⟨q', hrun', hparts'⟩ := run_of_parseAs? h'
  obtain ⟨hresult, hq⟩ := Prod.mk.inj (Parse.run_unique hrun hrun')
  rw [hparts, hparts', hresult, hq]

theorem parseAs?_of_derives (preferences : SyntaxPreferences)
    {tree : ParseTree (String × Span)} {rest : List Token}
    (h : g.Derives [symbol] (proper tokens) [tree] rest) :
    ∃ bound run, g.parseAs? preferences bound symbol (⟨tokens⟩ : TokenQueue) = some run ∧
      run.result = .ok ⟨tree.arena, rest.head?⟩ ∧ run.stream.BeginsAfter tokens rest := by
  obtain ⟨last, left, hreaches, hlast, rfl, hsuffix⟩ :=
    Parse.reaches_of_derives preferences h rfl (Parse.shows_start g symbol tokens) rfl
  obtain ⟨q, hstop, hq⟩ := Parse.step_complete g preferences hlast
  obtain ⟨bound, hrun⟩ := Parse.run_of_reaches hreaches hstop
  have htree : last.tree = tree.arena := by
    have hnodes : last.tree.nodes.toList = tree.node 1 :: tree.blocks 1 := by
      simpa [ParseTree.roots, ParseTree.blocksAll] using hlast.nodes
    rw [ParseTree.arena, ← hnodes]
  have hqueue : q.stream = ⟨(dropTrivia left).tail⟩ := by rw [← hq]
  refine ⟨bound, _, parseAs?_of_run hrun, by rw [htree], ?_⟩
  simp only [hqueue]
  exact TokenQueue.beginsAfter_tail hsuffix

theorem parseAs?_of_stuck (preferences : SyntaxPreferences) {expected : String}
    {rest : List Token} (h : g.Stuck [symbol] (proper tokens) expected rest) :
    ∃ bound run, g.parseAs? preferences bound symbol (⟨tokens⟩ : TokenQueue) = some run ∧
      run.result = .error (.mismatch expected rest.head?) ∧
      run.stream.BeginsWith tokens rest := by
  obtain ⟨last, q, hreaches, hstop, hproper, hhead, hsuffix⟩ :=
    Parse.stopsAt_of_stuck preferences h (Parse.shows_start g symbol tokens) rfl
  obtain ⟨bound, hrun⟩ := Parse.run_of_reaches hreaches hstop
  exact ⟨bound, _, parseAs?_of_run hrun, rfl, hproper, hhead, hsuffix⟩

theorem decided_of_parseAs? {bound : Nat} {run : ParseRun TokenQueue}
    (h : g.parseAs? preferences bound symbol (⟨tokens⟩ : TokenQueue) = some run) :
    (∃ tree rest, g.Derives [symbol] (proper tokens) [tree] rest) ∨
      ∃ expected rest, g.Stuck [symbol] (proper tokens) expected rest := by
  obtain ⟨q, hrun, -⟩ := run_of_parseAs? h
  have hpending : Parse.Pending [symbol] (List.range' 0 1 ++ []) [symbol] := rfl
  obtain ⟨trees, rest, hderives⟩ | hstuck :=
    Parse.decided_of_run preferences bound (Parse.shows_start g symbol tokens) hpending hrun
  · obtain ⟨tree, rfl⟩ := hderives.single
    exact Or.inl ⟨tree, rest, hderives⟩
  · exact Or.inr hstuck

theorem result_of_derives {bound : Nat} {run : ParseRun TokenQueue}
    (hrun : g.parseAs? preferences bound symbol (⟨tokens⟩ : TokenQueue) = some run)
    {tree : ParseTree (String × Span)} {rest : List Token}
    (h : g.Derives [symbol] (proper tokens) [tree] rest) :
    run.result = .ok ⟨tree.arena, rest.head?⟩ ∧ run.stream.BeginsAfter tokens rest := by
  obtain ⟨bound', run', hrun', hresult⟩ := parseAs?_of_derives preferences h
  rwa [parseAs?_unique hrun hrun']

theorem result_of_stuck {bound : Nat} {run : ParseRun TokenQueue}
    (hrun : g.parseAs? preferences bound symbol (⟨tokens⟩ : TokenQueue) = some run)
    {expected : String} {rest : List Token}
    (h : g.Stuck [symbol] (proper tokens) expected rest) :
    run.result = .error (.mismatch expected rest.head?) ∧ run.stream.BeginsWith tokens rest := by
  obtain ⟨bound', run', hrun', hresult⟩ := parseAs?_of_stuck preferences h
  rwa [parseAs?_unique hrun hrun']

theorem derives_of_result {bound : Nat} {run : ParseRun TokenQueue}
    (hrun : g.parseAs? preferences bound symbol (⟨tokens⟩ : TokenQueue) = some run)
    {tree : SyntaxTree} {trailing : Option Token} (hok : run.result = .ok ⟨tree, trailing⟩) :
    ∃ parse rest, g.Derives [symbol] (proper tokens) [parse] rest ∧ tree = parse.arena ∧
      trailing = rest.head? := by
  obtain ⟨parse, rest, hderives⟩ | ⟨expected, rest, hstuck⟩ := decided_of_parseAs? hrun
  · rw [(result_of_derives hrun hderives).1] at hok
    cases hok
    exact ⟨parse, rest, hderives, rfl, rfl⟩
  · rw [(result_of_stuck hrun hstuck).1] at hok
    cases hok

/-- A parse that leaves nothing is a derivation of all the proper tokens. -/
theorem derives_of_complete {bound : Nat} {run : ParseRun TokenQueue}
    (hrun : g.parseAs? preferences bound symbol (⟨tokens⟩ : TokenQueue) = some run)
    {tree : SyntaxTree} (hok : run.result = .ok ⟨tree, none⟩) :
    ∃ parse, tree = parse.arena ∧ g.Derives [symbol] (proper tokens) [parse] [] := by
  obtain ⟨parse, rest, hderives, htree, hrest⟩ := derives_of_result hrun hok
  obtain rfl := List.head?_eq_none_iff.mp hrest.symm
  exact ⟨parse, htree, hderives⟩

theorem stuck_of_result {bound : Nat} {run : ParseRun TokenQueue}
    (hrun : g.parseAs? preferences bound symbol (⟨tokens⟩ : TokenQueue) = some run)
    {e : SyntaxError} (herror : run.result = .error e) :
    ∃ expected rest, g.Stuck [symbol] (proper tokens) expected rest ∧
      e = .mismatch expected rest.head? := by
  obtain ⟨parse, rest, hderives⟩ | ⟨expected, rest, hstuck⟩ := decided_of_parseAs? hrun
  · rw [(result_of_derives hrun hderives).1] at herror
    cases herror
  · rw [(result_of_stuck hrun hstuck).1] at herror
    cases herror
    exact ⟨expected, rest, hstuck, rfl⟩

/-- The parser's answers on a queue, for every table and every choice of
nonterminals. The trees are those of predictive derivations in front of the proper
tokens, as the parser lays them out; an array that holds a tree can be read back. -/
theorem parseAs?_iff_derives (g : Grammar) (preferences : SyntaxPreferences) (symbol : String)
    (tokens : List Token) :
    (∀ bound run, g.parseAs? preferences bound symbol (⟨tokens⟩ : TokenQueue) = some run →
      (∀ tree trailing, run.result = .ok ⟨tree, trailing⟩ ↔
        ∃ parse piece rest, proper tokens = piece ++ rest ∧
          g.Derives [symbol] (piece ++ rest) [parse] rest ∧
          tree = parse.arena ∧ trailing = rest.head?) ∧
      (∀ expected found span, run.result = .error (.unexpectedInput expected found span) ↔
        ∃ t rest, g.Stuck [symbol] (proper tokens) expected (t :: rest) ∧
          found = t.lexClass ∧ span = t.span) ∧
      (∀ expected, run.result = .error (.unexpectedEndOfInput expected) ↔
        g.Stuck [symbol] (proper tokens) expected []) ∧
      (∀ cause, run.result ≠ .error (.lexical cause)) ∧
      (∀ parse rest, g.Derives [symbol] (proper tokens) [parse] rest →
        run.stream.BeginsAfter tokens rest) ∧
      (∀ expected rest, g.Stuck [symbol] (proper tokens) expected rest →
        run.stream.BeginsWith tokens rest)) ∧
    ((∃ bound run, g.parseAs? preferences bound symbol (⟨tokens⟩ : TokenQueue) = some run) ↔
      (∃ parse rest, g.Derives [symbol] (proper tokens) [parse] rest) ∨
        ∃ expected rest, g.Stuck [symbol] (proper tokens) expected rest) ∧
    ∀ parse : ParseTree (String × Span), parse.arena.Holds SyntaxTree.root parse := by
  refine ⟨?_, ⟨?_, ?_⟩, fun parse => (SyntaxTree.holds_arena parse).1⟩
  · intro bound run hrun
    refine ⟨?_, ?_, ?_, ?_, fun parse rest h => (result_of_derives hrun h).2,
      fun expected rest h => (result_of_stuck hrun h).2⟩
    · intro tree trailing
      constructor
      · intro hok
        obtain ⟨parse, rest, hderives, htree, htrailing⟩ := derives_of_result hrun hok
        obtain ⟨piece, hpiece, -⟩ := hderives.split
        exact ⟨parse, piece, rest, hpiece, hpiece ▸ hderives, htree, htrailing⟩
      · rintro ⟨parse, piece, rest, hpiece, hderives, rfl, rfl⟩
        exact (result_of_derives hrun (hpiece ▸ hderives)).1
    · intro expected found span
      constructor
      · intro herror
        obtain ⟨expected', rest, hstuck, hmismatch⟩ := stuck_of_result hrun herror
        cases rest with
        | nil => cases hmismatch
        | cons t rest =>
            cases hmismatch
            exact ⟨t, rest, hstuck, rfl, rfl⟩
      · rintro ⟨t, rest, hstuck, rfl, rfl⟩
        exact (result_of_stuck hrun hstuck).1
    · intro expected
      constructor
      · intro herror
        obtain ⟨expected', rest, hstuck, hmismatch⟩ := stuck_of_result hrun herror
        cases rest with
        | nil =>
            cases hmismatch
            exact hstuck
        | cons t rest => cases hmismatch
      · intro hstuck
        exact (result_of_stuck hrun hstuck).1
    · intro cause herror
      obtain ⟨expected, rest, -, hmismatch⟩ := stuck_of_result hrun herror
      cases rest <;> cases hmismatch
  · rintro ⟨bound, run, hrun⟩
    exact decided_of_parseAs? hrun
  · rintro (⟨parse, rest, hderives⟩ | ⟨expected, rest, hstuck⟩)
    · obtain ⟨bound, run, hrun, -⟩ := parseAs?_of_derives preferences hderives
      exact ⟨bound, run, hrun⟩
    · obtain ⟨bound, run, hrun, -⟩ := parseAs?_of_stuck preferences hstuck
      exact ⟨bound, run, hrun⟩

end Grammar

end Lookahead
