import Lookahead.Proofs.ParserAnswer

/-!
Tables on which the parser always stops. An expansion puts the right-hand side on the
stack without taking a token, so a table can keep the parser busy for ever. It cannot if
its nonterminals are ranked: whatever a table entry puts in front of its first terminal
ranks below the nonterminal it replaces. Expansions in a row then lead down to a terminal
or empty the stack, and a terminal takes a token or ends the parse.

The argument is about derivations: in front of every input every list of symbols has a
derivation or gets stuck. Inputs are taken by length, and in front of one input the
symbols by rank.
-/
namespace Lookahead

namespace Grammar

/-- Every nonterminal in front of the first terminal of an entry ranks below the
nonterminal that the entry is for. -/
def Ranked (g : Grammar) (rank : String → Nat) : Prop :=
  ∀ label lookahead rhs, g.isNonterminal label = true → g.entry label lookahead = some rhs →
    ∀ symbol ∈ rhs.takeWhile g.isNonterminal, rank symbol < rank label

variable {g : Grammar}

theorem Stuck.append {symbols : List String} {expected : String} {input rest : List Token}
    (h : g.Stuck symbols input expected rest) (more : List String) :
    g.Stuck (symbols ++ more) input expected rest := by
  induction h with
  | mismatch hterminal hclass => exact .mismatch hterminal hclass
  | blank hnonterminal hentry => exact .blank hnonterminal hentry
  | inside hnonterminal hentry hchildren _ => exact .inside hnonterminal hentry hchildren
  | later hfirst _ ih => exact .later hfirst ih

/-- A symbol and then the others, which are asked for what the symbol leaves only. -/
theorem Decided.cons {label : String} {symbols : List String} {input : List Token}
    (hfirst : g.Decided [label] input)
    (hrest : ∀ trees middle, g.Derives [label] input trees middle → g.Decided symbols middle) :
    g.Decided (label :: symbols) input := by
  obtain ⟨trees, middle, hderives⟩ | ⟨expected, rest, hstuck⟩ := hfirst
  · obtain ⟨tree, rfl⟩ := hderives.single
    obtain ⟨trees, rest, hmore⟩ | ⟨expected, rest, hstuck⟩ := hrest [tree] middle hderives
    · exact Or.inl ⟨tree :: trees, rest, hderives.cons hmore⟩
    · exact Or.inr ⟨expected, rest, .later hderives hstuck⟩
  · exact Or.inr ⟨expected, rest, hstuck.append symbols⟩

/-- In front of an input, a list of symbols is decided if its leading nonterminals are and
everything is in front of shorter inputs: whatever comes after the first token that was
taken stands in front of a shorter input. -/
theorem decided_of_leading {input : List Token}
    (hshorter : ∀ shorter : List Token, shorter.length < input.length →
      ∀ symbols, g.Decided symbols shorter)
    {symbols : List String}
    (hleading : ∀ symbol ∈ symbols.takeWhile g.isNonterminal, g.Decided [symbol] input) :
    g.Decided symbols input := by
  induction symbols with
  | nil => exact Or.inl ⟨[], input, .nil input⟩
  | cons label symbols ih =>
      cases hkind : g.isNonterminal label with
      | false =>
          by_cases hclass : lookahead input = some label
          · obtain ⟨t, hhead, hlabel⟩ := Option.map_eq_some_iff.mp hclass
            obtain ⟨tail, rfl⟩ := List.head?_eq_some_iff.mp hhead
            exact .terminal hkind hlabel (hshorter tail (by simp) symbols)
          · exact Or.inr ⟨label, input, .mismatch hkind hclass⟩
      | true =>
          rw [List.takeWhile_cons_of_pos hkind, List.forall_mem_cons] at hleading
          refine .cons hleading.1 ?_
          intro trees middle hderives
          obtain ⟨piece, hpiece, -⟩ := hderives.split
          cases piece with
          | nil =>
              obtain rfl : input = middle := hpiece
              exact ih hleading.2
          | cons t piece =>
              apply hshorter middle
              rw [hpiece, List.cons_append, List.length_cons, List.length_append]
              omega

theorem Ranked.decided_symbol {rank : String → Nat} (hranked : g.Ranked rank)
    {input : List Token}
    (hshorter : ∀ shorter : List Token, shorter.length < input.length →
      ∀ symbols, g.Decided symbols shorter)
    {label : String} (hkind : g.isNonterminal label = true) : g.Decided [label] input := by
  generalize hrank : rank label = n
  induction n using Nat.strongRecOn generalizing label with
  | ind n ih =>
      cases hentry : g.entry label (lookahead input) with
      | none => exact Or.inr ⟨label, input, .blank hkind hentry⟩
      | some rhs =>
          refine .nonterminal hkind hentry ?_
          rw [List.append_nil]
          apply decided_of_leading hshorter
          intro symbol hsymbol
          have hlower := hranked label _ rhs hkind hentry symbol hsymbol
          have hsymbolKind := List.all_eq_true.mp List.all_takeWhile symbol hsymbol
          exact ih (rank symbol) (hrank ▸ hlower) hsymbolKind rfl

theorem Ranked.decided {rank : String → Nat} (hranked : g.Ranked rank) (symbols : List String)
    (input : List Token) : g.Decided symbols input := by
  generalize hlength : input.length = n
  induction n using Nat.strongRecOn generalizing symbols input with
  | ind n ih =>
      have hshorter : ∀ shorter : List Token, shorter.length < input.length →
          ∀ symbols, g.Decided symbols shorter := by
        intro shorter hlt symbols
        exact ih shorter.length (hlength ▸ hlt) symbols shorter rfl
      apply decided_of_leading hshorter
      intro symbol hsymbol
      exact hranked.decided_symbol hshorter (List.all_eq_true.mp List.all_takeWhile symbol hsymbol)

theorem exists_run_of_decided (preferences : SyntaxPreferences) {symbol : String}
    {tokens : List Token} (h : g.Decided [symbol] (proper tokens)) :
    ∃ bound run, g.parseAs? preferences bound symbol (⟨tokens⟩ : TokenQueue) = some run := by
  obtain ⟨trees, rest, hderives⟩ | ⟨expected, rest, hstuck⟩ := h
  · obtain ⟨tree, rfl⟩ := hderives.single
    obtain ⟨bound, run, hrun, -⟩ := parseAs?_of_derives preferences hderives
    exact ⟨bound, run, hrun⟩
  · obtain ⟨bound, run, hrun, -⟩ := parseAs?_of_stuck preferences hstuck
    exact ⟨bound, run, hrun⟩

theorem parseAs?_mono {τ : Type} [TokenStream τ] {stream : τ} {preferences : SyntaxPreferences}
    {symbol : String} {bound more : Nat} {run : ParseRun τ} (hle : bound ≤ more)
    (h : g.parseAs? preferences bound symbol stream = some run) :
    g.parseAs? preferences more symbol stream = some run := by
  obtain ⟨q, hrun, hparts⟩ := run_of_parseAs? h
  rw [parseAs?_of_run (Parse.run_mono hle hrun), ← hparts]

/-- With a ranked table every parse of a queue stops, as any symbol: from some number of
steps on, the bound on the steps has no part in the answer. -/
theorem parseAs?_terminates (g : Grammar) (rank : String → Nat) (hranked : g.Ranked rank)
    (preferences : SyntaxPreferences) (symbol : String) (tokens : List Token) :
    ∃ bound run, ∀ more, bound ≤ more →
      g.parseAs? preferences more symbol (⟨tokens⟩ : TokenQueue) = some run := by
  have hdecided := hranked.decided [symbol] (proper tokens)
  obtain ⟨bound, run, hrun⟩ := exists_run_of_decided preferences hdecided
  exact ⟨bound, run, fun more hle => parseAs?_mono hle hrun⟩

/-- Sums of terms. A sum begins with two nonterminals, the second of which can be empty. -/
def sums : Grammar where
  startSymbol := "#Sum"
  entry nonterminal lookahead :=
    if nonterminal = "#Sum" then some ["#Term", "#More"]
    else if nonterminal = "#More" then
      if lookahead = some "+" then some ["+", "#Term", "#More"] else some []
    else if nonterminal = "#Term" then some ["n"]
    else none

theorem sums_ranked : sums.Ranked fun symbol => if symbol = "#Sum" then 1 else 0 := by
  intro label lookahead rhs _ hentry
  simp only [sums] at hentry
  split at hentry
  · cases hentry
    simp [sums, isNonterminalSymbol, *]
  · split at hentry
    · split at hentry <;> cases hentry <;> simp [sums, isNonterminalSymbol]
    · split at hentry <;> cases hentry
      simp [sums, isNonterminalSymbol]

theorem sums_terminates :
    sums.Ranked (fun symbol => if symbol = "#Sum" then 1 else 0) ∧
    ∃ bound run, ∀ more, bound ≤ more →
      sums.parseAs? {} more "#Sum" (⟨[⟨"2", "n", .origin⟩, ⟨" ", "", .origin⟩,
        ⟨"+", "+", .origin⟩]⟩ : TokenQueue) = some run :=
  ⟨sums_ranked, parseAs?_terminates sums _ sums_ranked {} "#Sum" _⟩

end Grammar

end Lookahead
