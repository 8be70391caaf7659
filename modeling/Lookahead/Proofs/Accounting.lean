import Lookahead.Bundled.Demo
import Lookahead.Pipeline
import Lookahead.Proofs.LazyParsing
import Lookahead.Proofs.Tiling
import Lookahead.Proofs.TokenCounts
import Lookahead.Proofs.TreeReading

/-!
The counts of a run that succeeds. The lexer has then produced the tokens up to the one
that was left over, or all tokens of the text, and each of them was skipped as trivia,
was matched by a leaf of the tree, or is the one left over. So the counts of the lexer
and those of the parser add up, and the spans of the tokens lie side by side in the text.
-/
namespace Lookahead

namespace Parse

variable {σ : Type} [CharSource σ] {t : Tokenizer σ} {tokens : List Token}
  {failure : Option LexerError} {p last : Parse (LookaheadStream σ)} {q : Parse TokenQueue}
  {g : Grammar} {preferences : SyntaxPreferences} {tree : SyntaxTree} {trailing : Option Token}

/-- How far the tokenizer has come when a parse has succeeded: to the token that was left
over, or to the end of the input. -/
def LexedTo (t : Tokenizer σ) (tokens : List Token) (failure : Option LexerError)
    (stream : LookaheadStream σ) (queue : TokenQueue) : Option Token → Prop
  | some x => ∃ front, tokens = front ++ x :: queue.tokens ∧
      stream.tokenizer = t.afterCalls (front.length + 1)
  | none => failure = none ∧ stream.tokenizer = t.afterCalls (tokens.length + 1)

theorem Agrees.complete_ok (h : Agrees t tokens failure p q) (hyields : t.Yields tokens failure)
    (hstop : p.complete preferences = .stopped (.ok ⟨tree, trailing⟩) last) :
    ∃ q', q.complete preferences = .stopped (.ok ⟨tree, trailing⟩) q' ∧
      LexedTo t tokens failure last.stream q'.stream trailing := by
  obtain ⟨front, rfl, hstands⟩ := h.stream
  have hqueue := TokenQueue.pullProper_eq q.stream
  cases hproper : proper q.stream.tokens with
  | nil =>
      have hdropped := dropTrivia_eq_nil hproper
      cases failure with
      | none =>
          obtain ⟨emitted, hpull⟩ := hstands.pullProper_nil hyields hdropped
          rw [hproper] at hqueue
          simp only [Parse.complete, hpull, hqueue, h.tree] at hstop ⊢
          cases hstop
          exact ⟨_, rfl, rfl, rfl⟩
      | some e =>
          obtain ⟨rest, emitted, hpull⟩ := hstands.pullProper_failure hyields hdropped
          simp only [Parse.complete, hpull] at hstop
          cases hstop
  | cons x others =>
      obtain ⟨tail, hdropped, -⟩ := dropTrivia_eq_cons hproper
      obtain ⟨front', emitted, hfront, hpull⟩ := hstands.pullProper_cons hyields hdropped
      rw [hproper, hdropped] at hqueue
      simp only [Parse.complete, hpull, hqueue, h.tree] at hstop ⊢
      cases hstop
      refine ⟨_, rfl, front', hfront.symm, ?_⟩
      simp [emit]

theorem step_of_empty {τ : Type} [TokenStream τ] {p : Parse τ} (h : p.stack.toList = []) :
    p.step g preferences = p.complete preferences := by
  rw [step, SizedList.uncons?_of_nil h]

/-- A parse that succeeds while it lexes succeeds over the queue of all tokens too. -/
theorem Agrees.run_ok {bound : Nat} (h : Agrees t tokens failure p q)
    (hyields : t.Yields tokens failure)
    (hrun : p.run g preferences bound = some (.ok ⟨tree, trailing⟩, last)) :
    ∃ q', q.run g preferences bound = some (.ok ⟨tree, trailing⟩, q') ∧
      LexedTo t tokens failure last.stream q'.stream trailing := by
  induction bound generalizing p q with
  | zero => cases hrun
  | succ bound ih =>
      simp only [Parse.run] at hrun ⊢
      cases hp : p.step g preferences with
      | stopped result p' =>
          rw [hp] at hrun
          cases hrun
          have hempty := (step_stopped_ok hp).1
          rw [step_of_empty hempty] at hp
          rw [h.stack] at hempty
          obtain ⟨q', hstop, hlexed⟩ := h.complete_ok hyields hp
          exact ⟨q', by rw [step_of_empty hempty, hstop], hlexed⟩
      | running p' =>
          rw [hp] at hrun
          -- a step that goes on has found a token or the end of the input
          have hsupplied : proper q.stream.tokens ≠ [] ∨ failure = none := by
            cases failure with
            | none => exact Or.inr rfl
            | some e =>
                refine Or.inl fun hdry => ?_
                obtain ⟨stopped, hstop⟩ := h.step_dry hyields hdry g preferences
                rw [hp] at hstop
                cases hstop
          have hstep := h.step hyields hsupplied g preferences
          rw [hp] at hstep
          cases hq : q.step g preferences with
          | running q' =>
              rw [hq] at hstep
              exact ih hstep hrun
          | stopped result q' =>
              rw [hq] at hstep
              exact hstep.elim

end Parse

namespace ParseTree

theorem length_leafNodesAll (trees : List (ParseTree (String × Span))) :
    (leafNodesAll trees).length = subtreeCounts isLeaf trees := by
  induction trees using forestInduction with
  | nil => rfl
  | leaf label content trees ih =>
      simp [leafNodesAll, leafNodes, subtreeCounts, subtreeCount, isLeaf, ih]
      omega
  | branch label children trees ihc iht =>
      simp [leafNodesAll, leafNodes, subtreeCounts, subtreeCount, isLeaf, ihc, iht]

end ParseTree

namespace Grammar

variable {σ : Type} [CharSource σ] {t : Tokenizer σ} {g : Grammar}
  {preferences : SyntaxPreferences} {symbol : String}

/-- The leaves of a finished tree are the tokens that its derivation has used up. -/
theorem leaves_of_derives {input rest : List Token} {tree : ParseTree (String × Span)}
    (h : g.Derives [symbol] input [tree] rest) :
    ∃ matched, input = matched ++ rest ∧
      tree.arena.leaves.map tree.arena.get? = matched.map (fun x => some x.leafNode) ∧
      tree.subtreeCount ParseTree.isLeaf = matched.length := by
  obtain ⟨matched, hinput, hleaves⟩ := h.leafNodes
  have hcount := ParseTree.length_leafNodesAll [tree]
  rw [hleaves, List.length_map] at hcount
  refine ⟨matched, hinput, ?_, hcount.symm⟩
  simp only [ParseTree.leafNodesAll, List.append_nil] at hleaves
  rw [SyntaxTree.leaves_arena, hleaves, List.map_map]
  rfl

/-- The tokens that were produced for a parse that succeeded: the proper ones were matched
or left over. -/
structure Produced (t : Tokenizer σ) (metrics : LexicalMetrics) (matched : List Token)
    (trailing : Option Token) (produced : List Token) : Prop where
  produces : t.Produces produced
  proper_eq : proper produced = matched ++ trailing.toList
  ending : trailing = none → t.answer produced.length = .ok none
  metrics_eq : metrics = (t.afterCalls produced.length).metrics

theorem produced_to_end {tokens matched : List Token} {stream : LookaheadStream σ}
    (hyields : t.Yields tokens none) (hinput : proper tokens = matched)
    (hstream : stream.tokenizer = t.afterCalls (tokens.length + 1)) :
    Produced t stream.tokenizer.metrics matched none tokens := by
  refine ⟨hyields.produces, ?_, ?_, ?_⟩
  · rw [hinput]
    exact (List.append_nil matched).symm
  · intro _
    exact hyields.stop
  · rw [hstream, Tokenizer.metrics_of_end hyields.stop]

theorem produced_to_token {front back matched : List Token} {x : Token}
    {failure : Option LexerError} {stream : LookaheadStream σ}
    (hyields : t.Yields (front ++ x :: back) failure)
    (hinput : proper (front ++ x :: back) = matched ++ x :: proper back)
    (hstream : stream.tokenizer = t.afterCalls (front.length + 1)) :
    Produced t stream.tokenizer.metrics matched (some x) (front ++ [x]) := by
  rw [List.append_cons] at hyields hinput
  refine ⟨hyields.produces_front, ?_, ?_, ?_⟩
  · -- what lies behind the token left over is the same on both sides
    have hboth : proper (front ++ [x]) ++ proper back = matched ++ [x] ++ proper back := by
      rw [← List.append_cons, ← hinput]
      exact (List.filter_append _ _).symm
    exact List.append_cancel_right hboth
  · intro hnone
    cases hnone
  · rw [hstream, List.length_append]
    rfl

/-- Every proper token that was produced for a parse that succeeds is a leaf of its tree, in
this order, or the token left over. -/
theorem produced_of_ok {bound : Nat} {run : ParseRun (LookaheadStream σ)} {tree : SyntaxTree}
    {trailing : Option Token}
    (h : g.parseAs? preferences bound symbol (⟨t, .empty⟩ : LookaheadStream σ) = some run)
    (hok : run.result = .ok ⟨tree, trailing⟩) :
    ∃ matched produced, Produced t run.stream.tokenizer.metrics matched trailing produced ∧
      tree.leaves.map tree.get? = matched.map (fun x => some x.leafNode) ∧
      run.metrics.terminalsMatched = matched.length := by
  have hyields := t.all_yields
  obtain ⟨last, hrun, hparts⟩ := run_of_parseAs? h
  have hstream : run.stream = last.stream := by rw [hparts]
  rw [hok] at hrun
  obtain ⟨q, hqueue, hlexed⟩ :=
    (agrees_start g symbol t t.all.tokens t.all.failure).run_ok hyields hrun
  have hqueue := parseAs?_of_run hqueue
  obtain ⟨parse, rest, hderives, rfl, htrailing⟩ := derives_of_result hqueue rfl
  obtain ⟨matched, hinput, hleaves, hcount⟩ := leaves_of_derives hderives
  have hterminals : run.metrics.terminalsMatched = matched.length := by
    rw [(metrics_of_ok h hok).2.2.1, hcount]
  rw [hstream]
  cases rest with
  | nil =>
      cases htrailing
      obtain ⟨hnone, htokenizer⟩ := hlexed
      rw [hnone] at hyields
      rw [List.append_nil] at hinput
      exact ⟨matched, _, produced_to_end hyields hinput htokenizer, hleaves, hterminals⟩
  | cons x rest =>
      cases htrailing
      obtain ⟨front, htokens, htokenizer⟩ := hlexed
      obtain ⟨hafter, -⟩ := (result_of_derives hqueue hderives).2
      rw [htokens] at hyields hinput
      rw [← hafter] at hinput
      exact ⟨matched, _, produced_to_token hyields hinput htokenizer, hleaves, hterminals⟩

end Grammar

namespace Stretch

def ofToken (x : Token) : Stretch := ⟨x.span, some x.value⟩

variable {text : List Char} {start stop : Position} {stretches : List Stretch}

theorem Tile.start_le (h : Tile text start stretches stop) :
    ∀ s ∈ stretches, start.offset ≤ s.span.start.offset := by
  induction stretches generalizing start with
  | nil => simp
  | cons r rest ih =>
      obtain ⟨rfl, hr, hrest⟩ := h
      intro s hs
      cases hs with
      | head => exact Nat.le_refl _
      | tail _ hs => exact Nat.le_trans (Nat.le_of_lt hr.nonempty) (ih hrest s hs)

/-- No stretch begins before the one to its left has ended. -/
theorem Tile.apart (h : Tile text start stretches stop) :
    stretches.Pairwise fun s s' => s.span.stop.offset ≤ s'.span.start.offset := by
  induction stretches generalizing start with
  | nil => exact .nil
  | cons s rest ih => exact .cons h.2.2.start_le (ih h.2.2)

theorem Tile.liesIn (h : Tile text start stretches stop) : ∀ s ∈ stretches, s.LiesIn text := by
  induction stretches generalizing start with
  | nil => simp
  | cons r rest ih =>
      intro s hs
      cases hs with
      | head => exact h.2.1
      | tail _ hs => exact ih h.2.2 s hs

/-- Every place between the two ends lies in one of the stretches. -/
theorem Tile.covers (h : Tile text start stretches stop) {i : Nat} (hstart : start.offset ≤ i)
    (hstop : i < stop.offset) :
    ∃ s ∈ stretches, s.span.start.offset ≤ i ∧ i < s.span.stop.offset := by
  induction stretches generalizing start with
  | nil =>
      obtain rfl : start = stop := h
      omega
  | cons r rest ih =>
      obtain ⟨rfl, hr, hrest⟩ := h
      by_cases hhere : i < r.span.stop.offset
      · exact ⟨r, List.mem_cons_self, hstart, hhere⟩
      · obtain ⟨s, hs, hlies⟩ := ih hrest (Nat.le_of_not_lt hhere)
        exact ⟨s, List.mem_cons_of_mem r hs, hlies⟩

theorem spelled_ofToken (tokens : List Token) :
    spelled (tokens.map ofToken) = tokens.flatMap fun x => x.value.toList :=
  List.flatMap_map _ _ tokens

end Stretch

namespace Tokenizer

variable {text : List Char} {acceptors : List Acceptor} {preferences : LexicalPreferences}
  {produced : List Token}

theorem Produces.answer_eq {σ : Type} [CharSource σ] {t : Tokenizer σ} (h : t.Produces produced)
    {i : Nat} (hi : i < produced.length) : t.answer i = .ok (some produced[i]) := by
  have hget : (t.answers produced.length)[i]? = (produced.map fun x => .ok (some x))[i]? := by
    rw [h]
  simpa [answers, hi] using hget

theorem Produces.obeyed {t : Tokenizer TextSource} (h : t.Produces produced) :
    t.Obeyed produced.length := by
  intro i hi state lexClass
  rw [h.answer_eq hi]
  simp

theorem Produces.stretches_eq {t : Tokenizer TextSource} (h : t.Produces produced) :
    t.stretches produced.length = produced.map Stretch.ofToken := by
  have hanswers : t.stretches produced.length =
      (t.answers produced.length).filterMap Stretch.ofAnswer? := by
    rw [answers, List.filterMap_map]
    rfl
  rw [hanswers, h, List.filterMap_map]
  exact congrFun List.filterMap_eq_map produced

/-- The tokens of a text lie in it side by side, from its beginning. -/
theorem Produces.tile (h : (ofText text acceptors preferences).Produces produced) :
    Stretch.Tile text .start (produced.map Stretch.ofToken)
      ((ofText text acceptors preferences).afterCalls produced.length).source.position := by
  rw [← h.stretches_eq]
  exact stretches_tile text acceptors preferences h.obeyed

theorem Produces.apart (h : (ofText text acceptors preferences).Produces produced) :
    produced.Pairwise fun x y => x.span.stop.offset ≤ y.span.start.offset :=
  List.pairwise_map.mp h.tile.apart

theorem Produces.nonempty (h : (ofText text acceptors preferences).Produces produced)
    {x : Token} (hx : x ∈ produced) : x.span.start.offset < x.span.stop.offset :=
  (h.tile.liesIn _ (List.mem_map_of_mem hx)).nonempty

section Ended

variable (h : (ofText text acceptors preferences).Produces produced)
  (hend : (ofText text acceptors preferences).answer produced.length = .ok none)
include h hend

theorem Produces.spelled_eq : (produced.flatMap fun x => x.value.toList) = text := by
  rw [← Stretch.spelled_ofToken, h.tile.spelled_eq,
    offset_of_end text acceptors preferences hend]
  · simp [Position.start, List.extract_eq_take_drop]
  · simp [Stretch.ofToken]

theorem Produces.covers {i : Nat} (hi : i < text.length) :
    ∃ x ∈ produced, x.span.start.offset ≤ i ∧ i < x.span.stop.offset := by
  have hstop := offset_of_end text acceptors preferences hend
  obtain ⟨s, hs, hlies⟩ := h.tile.covers (Nat.zero_le i) (by rw [hstop]; exact hi)
  obtain ⟨x, hx, rfl⟩ := List.mem_map.mp hs
  exact ⟨x, hx, hlies⟩

end Ended

end Tokenizer

/-- The counts of a run on a text that succeeded, against the tokens that its lexer has
produced and the tree that its parser has built. -/
structure Accounts (text : List Char) (acceptors : List Acceptor) (config : Config)
    (r : ParseResult) (produced : List Token) : Prop where
  produces : (Tokenizer.ofText text acceptors config.lexical).Produces produced
  total : r.lexicalMetrics.total = produced.length
  errors : r.lexicalMetrics.errors = 0
  trivia_le : r.lexicalMetrics.trivia ≤ r.lexicalMetrics.total
  proper_eq : r.lexicalMetrics.proper =
    r.parseMetrics.terminalsMatched + if r.trailing.isSome then 1 else 0
  leafCount : r.tree.leaves.length = r.parseMetrics.terminalsMatched
  leaves : ∃ matched, r.tree.leaves.map r.tree.get? = matched.map (fun x => some x.leafNode) ∧
    matched ++ r.trailing.toList = proper produced
  increasing : (proper produced).Pairwise fun x y => x.span.stop.offset ≤ y.span.start.offset
  nonempty : ∀ x ∈ proper produced, x.span.start.offset < x.span.stop.offset
  byClass : config.lexical.collectClassMetrics = true →
    (∀ lexClass, r.lexicalMetrics.byClass.get? lexClass =
      if lexClass ≠ triviaClass ∧ 0 < LexicalMetrics.classCount produced lexClass then
        some (LexicalMetrics.classCount produced lexClass)
      else none) ∧
    r.lexicalMetrics.byClass.valueSum = r.lexicalMetrics.proper
  notByClass : config.lexical.collectClassMetrics = false → r.lexicalMetrics.byClass = {}
  longest : (∀ x ∈ produced, x.value.length ≤ r.lexicalMetrics.longest) ∧
    (r.lexicalMetrics.longest = 0 ∨
      ∃ x ∈ produced, x.value.length = r.lexicalMetrics.longest)
  /-- Nothing of a text that was parsed to its end is left out. -/
  complete : r.trailing = none → r.lexicalMetrics.chars = text.length ∧
    ∀ i < text.length, ∃ x ∈ produced, x.span.start.offset ≤ i ∧ i < x.span.stop.offset ∧
      (x.isTrivia = true ∨ ∃ id ∈ r.tree.leaves, r.tree.get? id = some x.leafNode)

theorem parseText?_ok {bound : Nat} {text : List Char} {acceptors : List Acceptor}
    {grammar : Grammar} {config : Config} {run : Run ParseResult} {r : ParseResult}
    (h : parseText? bound text acceptors grammar config = some run) (hok : run.result = .ok r) :
    ∃ parsed, grammar.parseAs? config.parsing bound grammar.startSymbol
        (⟨.ofText text acceptors config.lexical, .empty⟩ : LookaheadStream TextSource) =
          some parsed ∧
      parsed.result = .ok ⟨r.tree, r.trailing⟩ ∧ parsed.metrics = r.parseMetrics ∧
      parsed.stream.tokenizer.metrics = r.lexicalMetrics := by
  simp only [parseText?, parseSource?, Grammar.parse?] at h
  split at h
  · cases h
  · cases h
    cases hok
  · rename_i outcome stream metrics events hparsed
    cases h
    cases hok
    exact ⟨_, hparsed, rfl, rfl, rfl⟩

theorem accounts_of_produced {text : List Char} {acceptors : List Acceptor} {config : Config}
    {r : ParseResult} {produced matched : List Token}
    (h : Grammar.Produced (.ofText text acceptors config.lexical) r.lexicalMetrics matched
      r.trailing produced)
    (hleaves : r.tree.leaves.map r.tree.get? = matched.map fun x => some x.leafNode)
    (hterminals : r.parseMetrics.terminalsMatched = matched.length) :
    Accounts text acceptors config r produced := by
  have hmetrics : r.lexicalMetrics = .ofTokens config.lexical produced := by
    rw [h.metrics_eq]
    exact h.produces.metrics_eq rfl
  have hcount := congrArg List.length hleaves
  rw [List.length_map, List.length_map, ← hterminals] at hcount
  have hproper := LexicalMetrics.proper_ofTokens config.lexical produced
  refine ⟨h.produces, ?_, ?_, ?_, ?_, hcount, ⟨matched, hleaves, h.proper_eq.symm⟩, ?_, ?_,
    ?_, ?_, ?_, ?_⟩
  · rw [hmetrics, LexicalMetrics.total_ofTokens]
  · rw [hmetrics, LexicalMetrics.errors_ofTokens]
  · rw [hmetrics]
    exact hproper.1
  · rw [hmetrics, hproper.2, h.proper_eq, hterminals, List.length_append]
    cases r.trailing <;> rfl
  · exact h.produces.apart.sublist List.filter_sublist
  · intro x hx
    exact h.produces.nonempty (List.mem_of_mem_filter hx)
  · intro hcollect
    rw [hmetrics, hproper.2]
    exact ⟨LexicalMetrics.get?_byClass hcollect produced,
      LexicalMetrics.valueSum_byClass hcollect produced⟩
  · intro hcollect
    rw [hmetrics, LexicalMetrics.byClass_of_not_collected hcollect]
  · rw [hmetrics]
    exact LexicalMetrics.longest_ofTokens config.lexical produced
  · intro hnone
    have hend := h.ending hnone
    refine ⟨?_, ?_⟩
    · rw [hmetrics, LexicalMetrics.chars_ofTokens, h.produces.spelled_eq hend]
    · intro i hi
      obtain ⟨x, hx, hlies⟩ := h.produces.covers hend hi
      refine ⟨x, hx, hlies.1, hlies.2, ?_⟩
      cases htrivia : x.isTrivia with
      | true => exact Or.inl rfl
      | false =>
          have hmatched : x ∈ matched := by
            have hmem : x ∈ proper produced := List.mem_filter.mpr ⟨hx, by simp [htrivia]⟩
            rw [h.proper_eq, hnone] at hmem
            simpa using hmem
          have hleaf : some x.leafNode ∈ r.tree.leaves.map r.tree.get? := by
            rw [hleaves]
            exact List.mem_map_of_mem hmatched
          exact Or.inr (List.mem_map.mp hleaf)

/-- The counts of the lexer, those of the parser and the tree add up in every run on a
text that succeeds. -/
theorem parseText?_accounts {bound : Nat} {text : List Char} {acceptors : List Acceptor}
    {grammar : Grammar} {config : Config} {run : Run ParseResult} {r : ParseResult}
    (h : parseText? bound text acceptors grammar config = some run) (hok : run.result = .ok r) :
    ∃ produced, Accounts text acceptors config r produced := by
  obtain ⟨parsed, hparsed, hresult, hcounts, hlexed⟩ := parseText?_ok h hok
  obtain ⟨matched, produced, hproduced, hleaves, hterminals⟩ :=
    Grammar.produced_of_ok hparsed hresult
  rw [hlexed] at hproduced
  rw [hcounts] at hterminals
  exact ⟨produced, accounts_of_produced hproduced hleaves hterminals⟩

theorem parseText?_accounts_demo :
    let text := "ab && ".toList
    ∃ run r, parseText? 12 text Demo.acceptors Demo.grammar {} = some run ∧ run.result = .ok r ∧
      r.trailing = none ∧ ∃ produced, Accounts text Demo.acceptors {} r produced := by
  have hends : (parseText? 12 "ab && ".toList Demo.acceptors Demo.grammar {}).any (fun run =>
      run.result.toOption.any fun r => r.trailing.isNone) = true := by
    decide +kernel
  obtain ⟨run, hrun, hresult⟩ := (Option.any_eq_true _ _).mp hends
  cases hok : run.result with
  | error e => simp [hok, Except.toOption] at hresult
  | ok r =>
      have hnone : r.trailing = none := by simpa [hok, Except.toOption] using hresult
      exact ⟨run, r, hrun, hok, hnone, parseText?_accounts hrun hok⟩

end Lookahead
