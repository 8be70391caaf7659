import Lookahead.Proofs.TreeReading

/-!
The demonstration grammar recognises balanced sequences. A scan of the proper tokens
counts how many words are still without their sign, and stops in front of a sign that
no word has opened, in front of a token that is neither word nor sign, or at the end.
The symbols that the parser still has on its stack are determined by that count: the
start symbol, and a sign and the start symbol for every open word. So the derivation
follows the scan token by token, and how the scan stops is how the parse ends.
-/
namespace Lookahead

namespace Demo

inductive ScanEnd where
  /-- A sign that no word has opened. -/
  | unopened (sign : Token)
  /-- A token that is neither word nor sign. -/
  | foreign (t : Token)
  /-- The end of the tokens, with that many words open. -/
  | exhausted (depth : Nat)
deriving DecidableEq, Repr

structure BalanceScan where
  passed : List Token
  ending : ScanEnd
deriving DecidableEq, Repr

namespace BalanceScan

def after (t : Token) (s : BalanceScan) : BalanceScan := { s with passed := t :: s.passed }

end BalanceScan

def balanceScan : Nat → List Token → BalanceScan
  | depth, [] => ⟨[], .exhausted depth⟩
  | depth, t :: tokens =>
      if t.lexClass = evenClass then (balanceScan (depth + 1) tokens).after t
      else if t.lexClass = andClass then
        match depth with
        | 0 => ⟨[], .unopened t⟩
        | depth + 1 => (balanceScan depth tokens).after t
      else ⟨[], .foreign t⟩

/-- What stands below the topmost start symbol when that many words are open. -/
def below : Nat → List String
  | 0 => []
  | depth + 1 => andClass :: startSymbol :: below depth

namespace ScanEnd

def ahead : ScanEnd → Option Token
  | .unopened t | .foreign t => some t
  | .exhausted _ => none

/-- The symbol for which there is no token, if there is one. -/
def missing : ScanEnd → Option String
  | .unopened _ | .exhausted 0 => none
  | .foreign _ => some startSymbol
  | .exhausted (_ + 1) => some andClass

end ScanEnd

/-- The derivation comes to its end in front of the rest, or lacks a symbol there. -/
def Concludes (symbols : List String) (input rest : List Token) : Option String → Prop
  | none => ∃ trees, grammar.Derives symbols input trees rest
  | some expected => grammar.Stuck symbols input expected rest

/-- The derivation of the symbols ends as the scan does. -/
def Follows (symbols : List String) (input : List Token) (s : BalanceScan) : Prop :=
  ∃ rest, input = s.passed ++ rest ∧ rest.head? = s.ending.ahead ∧
    Concludes symbols input rest s.ending.missing

theorem Concludes.terminal {label : String} {symbols : List String} {input rest : List Token}
    {missing : Option String} {t : Token} (hterminal : grammar.isNonterminal label = false)
    (hclass : t.lexClass = label) (h : Concludes symbols input rest missing) :
    Concludes (label :: symbols) (t :: input) rest missing := by
  have hfirst : grammar.Derives [label] (t :: input) [.leaf label (t.value, t.span)] input :=
    .terminal hterminal hclass (.nil input)
  cases missing with
  | none =>
      obtain ⟨trees, hderives⟩ := h
      exact ⟨_, hfirst.cons hderives⟩
  | some expected => exact .later hfirst h

theorem Concludes.expand {rhs symbols : List String} {input rest : List Token}
    {missing : Option String}
    (hentry : grammar.entry startSymbol (Grammar.lookahead input) = some rhs)
    (h : Concludes (rhs ++ symbols) input rest missing) :
    Concludes (startSymbol :: symbols) input rest missing := by
  have hstart : grammar.isNonterminal startSymbol = true := by decide
  cases missing with
  | none =>
      obtain ⟨trees, hderives⟩ := h
      exact hderives.expand hstart hentry
  | some expected => exact Grammar.Stuck.expand hstart hentry h

theorem Follows.terminal {label : String} {symbols : List String} {input : List Token}
    {s : BalanceScan} {t : Token} (hterminal : grammar.isNonterminal label = false)
    (hclass : t.lexClass = label)
    (h : Follows symbols input s) : Follows (label :: symbols) (t :: input) (s.after t) := by
  obtain ⟨rest, hinput, hahead, hconcludes⟩ := h
  exact ⟨rest, congrArg (t :: ·) hinput, hahead, hconcludes.terminal hterminal hclass⟩

theorem Follows.expand {rhs symbols : List String} {input : List Token} {s : BalanceScan}
    (hentry : grammar.entry startSymbol (Grammar.lookahead input) = some rhs)
    (h : Follows (rhs ++ symbols) input s) : Follows (startSymbol :: symbols) input s := by
  obtain ⟨rest, hinput, hahead, hconcludes⟩ := h
  exact ⟨rest, hinput, hahead, hconcludes.expand hentry⟩

theorem entry_vanish {input : List Token}
    (h : Grammar.lookahead input = none ∨ Grammar.lookahead input = some andClass) :
    grammar.entry startSymbol (Grammar.lookahead input) = some [] := by
  simp [grammar, h]

theorem entry_enclose {t : Token} (h : t.lexClass = evenClass) (input : List Token) :
    grammar.entry startSymbol (Grammar.lookahead (t :: input)) =
      some [evenClass, startSymbol, andClass, startSymbol] := by
  have hlookahead : Grammar.lookahead (t :: input) = some evenClass := congrArg some h
  rw [hlookahead]
  decide

theorem entry_blank {t : Token} (heven : t.lexClass ≠ evenClass) (hand : t.lexClass ≠ andClass)
    (input : List Token) :
    grammar.entry startSymbol (Grammar.lookahead (t :: input)) = none := by
  simp [grammar, Grammar.lookahead, heven, hand]

/-- The table has two right-hand sides, both for the start symbol. -/
theorem entry_cases {label : String} {ahead : Option String} {rhs : List String}
    (h : grammar.entry label ahead = some rhs) :
    label = startSymbol ∧ (rhs = [] ∨ rhs = [evenClass, startSymbol, andClass, startSymbol]) := by
  by_cases hlabel : label = startSymbol
  · subst hlabel
    simp only [grammar, if_true] at h
    split at h
    · exact ⟨rfl, Or.inl (Option.some.inj h).symm⟩
    · split at h
      · exact ⟨rfl, Or.inr (Option.some.inj h).symm⟩
      · cases h
  · simp [grammar, hlabel] at h

theorem balanceScan_word {t : Token} (h : t.lexClass = evenClass) (depth : Nat)
    (tokens : List Token) :
    balanceScan depth (t :: tokens) = (balanceScan (depth + 1) tokens).after t := by
  rw [balanceScan.eq_def]
  exact if_pos h

theorem balanceScan_sign {t : Token} (h : t.lexClass = andClass) (depth : Nat)
    (tokens : List Token) :
    balanceScan (depth + 1) (t :: tokens) = (balanceScan depth tokens).after t ∧
      balanceScan 0 (t :: tokens) = ⟨[], .unopened t⟩ := by
  have hdistinct : andClass ≠ evenClass := by decide
  constructor <;> simp [balanceScan, h, hdistinct]

theorem balanceScan_foreign {t : Token} (heven : t.lexClass ≠ evenClass)
    (hand : t.lexClass ≠ andClass) (depth : Nat) (tokens : List Token) :
    balanceScan depth (t :: tokens) = ⟨[], .foreign t⟩ := by
  rw [balanceScan.eq_def]
  simp [heven, hand]

theorem follows_balanceScan (depth : Nat) (input : List Token) :
    Follows (startSymbol :: below depth) input (balanceScan depth input) := by
  have hstart : grammar.isNonterminal startSymbol = true := by decide
  have hword : grammar.isNonterminal evenClass = false := by decide
  have hsign : grammar.isNonterminal andClass = false := by decide
  induction input generalizing depth with
  | nil =>
      have hnone : Grammar.lookahead [] = none := rfl
      apply Follows.expand (entry_vanish (Or.inl hnone))
      cases depth with
      | zero => exact ⟨[], rfl, rfl, [], .nil []⟩
      | succ depth =>
          have hmismatch : Grammar.lookahead [] ≠ some andClass := by simp [hnone]
          exact ⟨[], rfl, rfl, .mismatch hsign hmismatch⟩
  | cons t input ih =>
      by_cases heven : t.lexClass = evenClass
      · rw [balanceScan_word heven]
        apply Follows.expand (entry_enclose heven input)
        exact (ih (depth + 1)).terminal hword heven
      by_cases hand : t.lexClass = andClass
      · have hsome : Grammar.lookahead (t :: input) = some andClass := congrArg some hand
        apply Follows.expand (entry_vanish (Or.inr hsome))
        cases depth with
        | zero =>
            rw [(balanceScan_sign hand 0 input).2]
            exact ⟨t :: input, rfl, rfl, [], .nil _⟩
        | succ depth =>
            rw [(balanceScan_sign hand depth input).1]
            exact (ih depth).terminal hsign hand
      · rw [balanceScan_foreign heven hand]
        exact ⟨t :: input, rfl, rfl, .blank hstart (entry_blank heven hand input)⟩

/-- Every word of a derivation goes with its sign and two branches, one of which is
empty or leads to an empty one; a start symbol to begin with adds one empty branch. The
words among the symbols to begin with are not enclosed by a branch. -/
theorem counts_of_derives {symbols : List String} {input rest : List Token}
    {trees : List (ParseTree (String × Span))} (h : grammar.Derives symbols input trees rest) :
    ParseTree.subtreeCounts ParseTree.isBranch trees + 2 * symbols.count evenClass =
        symbols.count startSymbol + 2 * (ParseTree.frontierAll trees).count evenClass ∧
      ParseTree.subtreeCounts ParseTree.isEmptyBranch trees + symbols.count evenClass =
        symbols.count startSymbol + (ParseTree.frontierAll trees).count evenClass ∧
      ParseTree.subtreeCounts ParseTree.isLeaf trees + 2 * symbols.count evenClass +
          symbols.count startSymbol =
        symbols.length + 2 * (ParseTree.frontierAll trees).count evenClass := by
  induction h with
  | nil input => exact ⟨rfl, rfl, rfl⟩
  | @terminal label t symbols input rest trees hterminal hclass hrest ih =>
      have hlabel : label ≠ startSymbol := by
        rintro rfl
        exact absurd hterminal (by decide)
      simp [ParseTree.subtreeCounts, ParseTree.subtreeCount, ParseTree.isBranch,
        ParseTree.isEmptyBranch, ParseTree.isLeaf, ParseTree.frontierAll, ParseTree.frontier,
        List.count_cons, hlabel]
      omega
  | @nonterminal label rhs symbols input middle rest children trees hnt hentry hc hrest ihc ihr =>
      obtain ⟨rfl, hrhs⟩ := entry_cases hentry
      have hdistinct : startSymbol ≠ evenClass := by decide
      simp only [ParseTree.subtreeCounts, ParseTree.subtreeCount, ParseTree.isBranch,
        ParseTree.isLeaf, ParseTree.frontierAll, ParseTree.frontier, List.count_append,
        List.count_cons_self, List.count_cons_of_ne hdistinct, List.length_cons]
      obtain rfl | rfl := hrhs
      · cases hc
        simp [ParseTree.subtreeCounts, ParseTree.isEmptyBranch, ParseTree.frontierAll]
        omega
      · have hchildren : children ≠ [] := by
          rintro rfl
          cases hc.labels
        have hwords : [evenClass, startSymbol, andClass, startSymbol].count evenClass = 1 := by
          decide
        have hstarts : [evenClass, startSymbol, andClass, startSymbol].count startSymbol = 2 := by
          decide
        have hbranch : (ParseTree.branch startSymbol children).isEmptyBranch = false := by
          cases children with
          | nil => exact absurd rfl hchildren
          | cons tree trees => rfl
        rw [hwords, hstarts] at ihc
        simp only [hbranch, Bool.toNat_true, Bool.toNat_false, List.length_cons,
          List.length_nil] at ihc ⊢
        omega

/-- The parse has succeeded with that token left over: the leaves of the tree are the
tokens that the scan has passed, and their words account for all that was counted. -/
def Succeeds (passed : List Token) (trailing : Option Token) (run : ParseRun TokenQueue) : Prop :=
  ∃ tree words, run.result = .ok ⟨tree, trailing⟩ ∧
    tree.leaves.map tree.get? = passed.map (some ·.leafNode) ∧
    words = passed.countP (·.lexClass = evenClass) ∧
    run.metrics.expansions = 2 * words + 1 ∧
    run.metrics.epsilonExpansions = words + 1 ∧
    run.metrics.terminalsMatched = 2 * words ∧
    tree.size = 4 * words + 1

/-- How the parse ends after that scan. -/
def Answers (s : BalanceScan) (run : ParseRun TokenQueue) : Prop :=
  match s.ending with
  | .unopened sign => Succeeds s.passed (some sign) run
  | .foreign t => run.result = .error (.unexpectedInput startSymbol t.lexClass t.span)
  | .exhausted 0 => Succeeds s.passed none run
  | .exhausted (_ + 1) => run.result = .error (.unexpectedEndOfInput andClass)

variable {preferences : SyntaxPreferences} {tokens passed rest : List Token} {bound : Nat}
  {run : ParseRun TokenQueue}

theorem succeeds_of_derives {tree : ParseTree (String × Span)}
    (hrun : grammar.parseAs? preferences bound startSymbol (⟨tokens⟩ : TokenQueue) = some run)
    (h : grammar.Derives [startSymbol] (proper tokens) [tree] rest)
    (hpassed : proper tokens = passed ++ rest) : Succeeds passed rest.head? run := by
  have hok := (Grammar.result_of_derives hrun h).1
  obtain ⟨hexpansions, hepsilon, hterminals, hsize⟩ := Grammar.metrics_of_ok hrun hok
  obtain ⟨hbranches, hempty, hleaves⟩ := counts_of_derives h
  obtain ⟨piece, hpiece, hnodes⟩ := h.leafNodes
  obtain ⟨piece', hpiece', hfrontier⟩ := h.split
  obtain rfl := List.append_cancel_right (hpassed.symm.trans hpiece)
  obtain rfl := List.append_cancel_right (hpassed.symm.trans hpiece')
  have hwords : (ParseTree.frontierAll [tree]).count evenClass =
      passed.countP (·.lexClass = evenClass) := by
    rw [hfrontier, List.count, List.countP_map]
    congr
  have hdistinct : startSymbol ≠ evenClass := by decide
  simp only [ParseTree.subtreeCounts, hwords, List.count_singleton_self,
    List.count_cons_of_ne hdistinct, List.count_nil, List.length_cons, List.length_nil]
    at hbranches hempty hleaves
  refine ⟨tree.arena, _, hok, ?_, rfl, ?_⟩
  · rw [SyntaxTree.leaves_arena]
    simp only [ParseTree.leafNodesAll, List.append_nil] at hnodes
    rw [hnodes, List.map_map]
    rfl
  · omega

theorem answers_balanceScan
    (hrun : grammar.parseAs? preferences bound startSymbol (⟨tokens⟩ : TokenQueue) = some run) :
    Answers (balanceScan 0 (proper tokens)) run := by
  obtain ⟨rest, hinput, hahead, hconcludes⟩ := follows_balanceScan 0 (proper tokens)
  generalize balanceScan 0 (proper tokens) = s at hinput hahead hconcludes
  have hsucceeds (h : s.ending.missing = none) : Succeeds s.passed s.ending.ahead run := by
    rw [h] at hconcludes
    obtain ⟨trees, hderives⟩ := hconcludes
    obtain ⟨tree, rfl⟩ := hderives.single
    rw [← hahead]
    exact succeeds_of_derives hrun hderives hinput
  have hfails (expected : String) (h : s.ending.missing = some expected) :
      run.result = .error (.mismatch expected s.ending.ahead) := by
    rw [h] at hconcludes
    rw [← hahead]
    exact (Grammar.result_of_stuck hrun hconcludes).1
  obtain ⟨passed, ending⟩ := s
  cases ending with
  | unopened sign => exact hsucceeds rfl
  | foreign t => exact hfails startSymbol rfl
  | exhausted depth =>
      cases depth with
      | zero => exact hsucceeds rfl
      | succ depth => exact hfails andClass rfl

theorem exists_run (preferences : SyntaxPreferences) (tokens : List Token) :
    ∃ bound run,
      grammar.parseAs? preferences bound startSymbol (⟨tokens⟩ : TokenQueue) = some run := by
  obtain ⟨rest, -, -, hconcludes⟩ := follows_balanceScan 0 (proper tokens)
  cases hmissing : (balanceScan 0 (proper tokens)).ending.missing with
  | none =>
      rw [hmissing] at hconcludes
      obtain ⟨trees, hderives⟩ := hconcludes
      obtain ⟨tree, rfl⟩ := hderives.single
      obtain ⟨bound, run, hrun, -⟩ := Grammar.parseAs?_of_derives preferences hderives
      exact ⟨bound, run, hrun⟩
  | some expected =>
      rw [hmissing] at hconcludes
      obtain ⟨bound, run, hrun, -⟩ := Grammar.parseAs?_of_stuck preferences hconcludes
      exact ⟨bound, run, hrun⟩

/-- The demonstration grammar on every queue of tokens: the parse ends, and it ends as
the scan of the proper tokens does. -/
theorem parse?_balanced (preferences : SyntaxPreferences) (tokens : List Token) :
    (∃ bound run, grammar.parse? preferences bound (⟨tokens⟩ : TokenQueue) = some run) ∧
      ∀ bound run, grammar.parse? preferences bound (⟨tokens⟩ : TokenQueue) = some run →
        Answers (balanceScan 0 (proper tokens)) run := by
  refine ⟨exists_run preferences tokens, ?_⟩
  intro bound run hrun
  exact answers_balanceScan hrun

end Demo

end Lookahead
