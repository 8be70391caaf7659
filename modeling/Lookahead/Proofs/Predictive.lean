import Lookahead.Grammar.Basic
import Lookahead.Proofs.ParseTree
import Lookahead.Token

/-!
Predictive derivations. A terminal derives exactly one token, of its own class. A
nonterminal derives what the right-hand side derives that the table names for the
token ahead, the symbols of which derive consecutive pieces from left to right.
The lookahead of an expansion reaches beyond the piece that is derived, so the
whole of the remaining input belongs to the judgment: `Derives` says which trees a
list of symbols has in front of an input, and what it leaves of that input.

A derivation that cannot go on is stuck at one symbol. It goes wrong at the
leftmost place where it can, so being stuck is a judgment of the same shape.
-/
namespace Lookahead

namespace Grammar

def lookahead (input : List Token) : Option String := input.head?.map (·.lexClass)

inductive Derives (g : Grammar) :
    List String → List Token → List (ParseTree (String × Span)) → List Token → Prop where
  | nil (input : List Token) : Derives g [] input [] input
  | terminal {label : String} {t : Token} {symbols : List String} {input rest : List Token}
      {trees : List (ParseTree (String × Span))}
      (hterminal : g.isNonterminal label = false) (hclass : t.lexClass = label)
      (hrest : Derives g symbols input trees rest) :
      Derives g (label :: symbols) (t :: input) (.leaf label (t.value, t.span) :: trees) rest
  | nonterminal {label : String} {rhs symbols : List String} {input middle rest : List Token}
      {children trees : List (ParseTree (String × Span))}
      (hnonterminal : g.isNonterminal label = true)
      (hentry : g.entry label (lookahead input) = some rhs)
      (hchildren : Derives g rhs input children middle)
      (hrest : Derives g symbols middle trees rest) :
      Derives g (label :: symbols) input (.branch label children :: trees) rest

/-- The leftmost derivation stops at the expected symbol, in front of what is left
of the input. -/
inductive Stuck (g : Grammar) : List String → List Token → String → List Token → Prop where
  | mismatch {label : String} {symbols : List String} {input : List Token}
      (hterminal : g.isNonterminal label = false) (hclass : lookahead input ≠ some label) :
      Stuck g (label :: symbols) input label input
  | blank {label : String} {symbols : List String} {input : List Token}
      (hnonterminal : g.isNonterminal label = true)
      (hentry : g.entry label (lookahead input) = none) :
      Stuck g (label :: symbols) input label input
  | inside {label expected : String} {rhs symbols : List String} {input rest : List Token}
      (hnonterminal : g.isNonterminal label = true)
      (hentry : g.entry label (lookahead input) = some rhs)
      (hchildren : Stuck g rhs input expected rest) :
      Stuck g (label :: symbols) input expected rest
  | later {label expected : String} {symbols : List String} {input middle rest : List Token}
      {tree : ParseTree (String × Span)}
      (hfirst : Derives g [label] input [tree] middle)
      (hrest : Stuck g symbols middle expected rest) :
      Stuck g (label :: symbols) input expected rest

variable {g : Grammar}

theorem Derives.labels {symbols : List String} {input rest : List Token}
    {trees : List (ParseTree (String × Span))} (h : g.Derives symbols input trees rest) :
    trees.map ParseTree.label = symbols := by
  induction h with
  | nil input => rfl
  | terminal _ _ _ ih => simp [ParseTree.label, ih]
  | nonterminal _ _ _ _ _ ih => simp [ParseTree.label, ih]

theorem Derives.single {symbol : String} {input rest : List Token}
    {trees : List (ParseTree (String × Span))} (h : g.Derives [symbol] input trees rest) :
    ∃ tree, trees = [tree] := by
  have hlength := congrArg List.length h.labels
  rw [List.length_map] at hlength
  exact List.length_eq_one_iff.mp hlength

/-- What is left is the end of the input, and the leaves are what stood before it. -/
theorem Derives.split {symbols : List String} {input rest : List Token}
    {trees : List (ParseTree (String × Span))} (h : g.Derives symbols input trees rest) :
    ∃ piece, input = piece ++ rest ∧
      ParseTree.frontierAll trees = piece.map (·.lexClass) := by
  induction h with
  | nil input => exact ⟨[], rfl, rfl⟩
  | @terminal label t _ _ _ _ _ hclass _ ih =>
      obtain ⟨piece, rfl, hfrontier⟩ := ih
      refine ⟨t :: piece, rfl, ?_⟩
      simp [ParseTree.frontierAll, ParseTree.frontier, hfrontier, hclass]
  | nonterminal _ _ _ _ ihc ihr =>
      obtain ⟨front, rfl, hfront⟩ := ihc
      obtain ⟨back, rfl, hback⟩ := ihr
      refine ⟨front ++ back, by simp, ?_⟩
      simp [ParseTree.frontierAll, ParseTree.frontier, hfront, hback]

theorem Derives.append_cases {front back : List String} {input rest : List Token}
    {trees : List (ParseTree (String × Span))} (h : g.Derives (front ++ back) input trees rest) :
    ∃ first last middle, g.Derives front input first middle ∧
      g.Derives back middle last rest := by
  generalize hsymbols : front ++ back = symbols at h
  induction h generalizing front with
  | nil input =>
      obtain ⟨rfl, rfl⟩ := List.append_eq_nil_iff.mp hsymbols
      exact ⟨[], [], input, .nil input, .nil input⟩
  | @terminal label t symbols input rest trees hterminal hclass hrest ih =>
      cases front with
      | nil =>
          cases hsymbols
          exact ⟨[], _, t :: input, .nil _, .terminal hterminal hclass hrest⟩
      | cons label front =>
          obtain ⟨rfl, htail⟩ := List.cons.inj hsymbols
          obtain ⟨first, last, middle, hfirst, hlast⟩ := ih htail
          exact ⟨_, last, middle, .terminal hterminal hclass hfirst, hlast⟩
  | @nonterminal label rhs symbols input middle rest children trees hnt hentry hc hrest _ ih =>
      cases front with
      | nil =>
          cases hsymbols
          exact ⟨[], _, input, .nil _, .nonterminal hnt hentry hc hrest⟩
      | cons label front =>
          obtain ⟨rfl, htail⟩ := List.cons.inj hsymbols
          obtain ⟨first, last, middle, hfirst, hlast⟩ := ih htail
          exact ⟨_, last, middle, .nonterminal hnt hentry hc hfirst, hlast⟩

theorem Derives.cons {label : String} {symbols : List String} {input middle rest : List Token}
    {tree : ParseTree (String × Span)} {trees : List (ParseTree (String × Span))}
    (hfirst : g.Derives [label] input [tree] middle)
    (hrest : g.Derives symbols middle trees rest) :
    g.Derives (label :: symbols) input (tree :: trees) rest := by
  cases hfirst with
  | terminal hterminal hclass hnil =>
      cases hnil
      exact .terminal hterminal hclass hrest
  | nonterminal hnonterminal hentry hchildren hnil =>
      cases hnil
      exact .nonterminal hnonterminal hentry hchildren hrest

theorem Stuck.append_cases {front back : List String} {expected : String}
    {input rest : List Token} (h : g.Stuck (front ++ back) input expected rest) :
    g.Stuck front input expected rest ∨
      ∃ trees middle, g.Derives front input trees middle ∧ g.Stuck back middle expected rest := by
  cases front with
  | nil => exact Or.inr ⟨[], input, .nil input, h⟩
  | cons label front =>
      generalize hsymbols : label :: front ++ back = symbols at h
      induction h generalizing label front with
      | mismatch hterminal hclass =>
          cases hsymbols
          exact Or.inl (.mismatch hterminal hclass)
      | blank hnonterminal hentry =>
          cases hsymbols
          exact Or.inl (.blank hnonterminal hentry)
      | inside hnonterminal hentry hchildren _ =>
          cases hsymbols
          exact Or.inl (.inside hnonterminal hentry hchildren)
      | @later _ expected symbols input middle rest tree hfirst hrest ih =>
          cases hsymbols
          cases front with
          | nil => exact Or.inr ⟨[tree], middle, hfirst, hrest⟩
          | cons next front =>
              obtain hstuck | ⟨trees, middle', hderives, hstuck⟩ := ih next front rfl
              · exact Or.inl (.later hfirst hstuck)
              · exact Or.inr ⟨tree :: trees, middle', hfirst.cons hderives, hstuck⟩

/-- The derivation comes to an end, one way or the other. -/
def Decided (g : Grammar) (symbols : List String) (input : List Token) : Prop :=
  (∃ trees rest, g.Derives symbols input trees rest) ∨
    (∃ expected rest, g.Stuck symbols input expected rest)

theorem Decided.terminal {label : String} {t : Token} {symbols : List String}
    {input : List Token} (hterminal : g.isNonterminal label = false)
    (hclass : t.lexClass = label) (h : g.Decided symbols input) :
    g.Decided (label :: symbols) (t :: input) := by
  obtain ⟨trees, rest, hderives⟩ | ⟨expected, rest, hstuck⟩ := h
  · exact Or.inl ⟨_, rest, .terminal hterminal hclass hderives⟩
  · exact Or.inr ⟨expected, rest, .later (.terminal hterminal hclass (.nil input)) hstuck⟩

/-- To derive what the table names for a nonterminal is to derive the nonterminal. -/
theorem Derives.expand {label : String} {rhs symbols : List String} {input rest : List Token}
    {trees : List (ParseTree (String × Span))} (hnonterminal : g.isNonterminal label = true)
    (hentry : g.entry label (lookahead input) = some rhs)
    (h : g.Derives (rhs ++ symbols) input trees rest) :
    ∃ trees', g.Derives (label :: symbols) input trees' rest := by
  obtain ⟨children, trees, middle, hchildren, hrest⟩ := h.append_cases
  exact ⟨_, .nonterminal hnonterminal hentry hchildren hrest⟩

theorem Stuck.expand {label expected : String} {rhs symbols : List String}
    {input rest : List Token} (hnonterminal : g.isNonterminal label = true)
    (hentry : g.entry label (lookahead input) = some rhs)
    (h : g.Stuck (rhs ++ symbols) input expected rest) :
    g.Stuck (label :: symbols) input expected rest := by
  obtain hinside | ⟨children, middle, hchildren, hlater⟩ := h.append_cases
  · exact .inside hnonterminal hentry hinside
  · have hfirst : g.Derives [label] input [.branch label children] middle :=
      .nonterminal hnonterminal hentry hchildren (.nil middle)
    exact .later hfirst hlater

theorem Decided.nonterminal {label : String} {rhs symbols : List String} {input : List Token}
    (hnonterminal : g.isNonterminal label = true)
    (hentry : g.entry label (lookahead input) = some rhs)
    (h : g.Decided (rhs ++ symbols) input) : g.Decided (label :: symbols) input := by
  obtain ⟨trees, rest, hderives⟩ | ⟨expected, rest, hstuck⟩ := h
  · obtain ⟨trees', hderives'⟩ := hderives.expand hnonterminal hentry
    exact Or.inl ⟨trees', rest, hderives'⟩
  · exact Or.inr ⟨expected, rest, hstuck.expand hnonterminal hentry⟩

/-- The table leaves no choice. -/
theorem Derives.unique {symbols : List String} {input rest rest' : List Token}
    {trees trees' : List (ParseTree (String × Span))} (h : g.Derives symbols input trees rest)
    (h' : g.Derives symbols input trees' rest') : trees = trees' ∧ rest = rest' := by
  induction h generalizing trees' rest' with
  | nil input =>
      cases h'
      exact ⟨rfl, rfl⟩
  | terminal hterminal _ _ ih =>
      cases h' with
      | terminal _ _ hrest =>
          obtain ⟨rfl, rfl⟩ := ih hrest
          exact ⟨rfl, rfl⟩
      | nonterminal hnonterminal => simp [hterminal] at hnonterminal
  | nonterminal hnonterminal hentry _ _ ihc ihr =>
      cases h' with
      | terminal hterminal => simp [hnonterminal] at hterminal
      | nonterminal _ hentry' hchildren hrest =>
          rw [hentry] at hentry'
          cases hentry'
          obtain ⟨rfl, rfl⟩ := ihc hchildren
          obtain ⟨rfl, rfl⟩ := ihr hrest
          exact ⟨rfl, rfl⟩

end Grammar

end Lookahead
