import Mathlib.Computability.ContextFreeGrammar
import Lookahead.Grammar.Basic
import Lookahead.Proofs.ParseTree

/-!
Context-free grammars over texts, and their derivation trees. The sets that a
predictive table is made of are defined by derivations: a form is nullable if it
derives the empty form, a terminal is among the first of a form if the form
derives one that begins with it, and it follows a nonterminal if it stands right
after it in some form of the start symbol. The end of the input follows a
nonterminal that can stand last, which the start symbol always can.

The nodes of a tree and the rows of a table are labelled with texts, so
nonterminals are given names. A table belongs to a grammar if each of its entries
is the right-hand side of the rule that is chosen in front of the entry's lookahead.
-/
namespace Lookahead

namespace ContextFree

variable {G : ContextFreeGrammar String} {name : G.NT → String}

def Nullable (G : ContextFreeGrammar String) (form : List (Symbol String G.NT)) : Prop :=
  G.Derives form []

def First (G : ContextFreeGrammar String) (form : List (Symbol String G.NT)) (a : String) :
    Prop :=
  ∃ rest, G.Derives form (.terminal a :: rest)

def Follow (G : ContextFreeGrammar String) (A : G.NT) : Option String → Prop
  | none => ∃ before, G.Generates (before ++ [.nonterminal A])
  | some a => ∃ before after, G.Generates (before ++ .nonterminal A :: .terminal a :: after)

/-- A rule is chosen in front of what its right-hand side can begin with, and, if
that can vanish, in front of what can follow its nonterminal. -/
def Chosen (G : ContextFreeGrammar String) (r : ContextFreeRule String G.NT)
    (ahead : Option String) : Prop :=
  (∃ a, ahead = some a ∧ First G r.output a) ∨ Nullable G r.output ∧ Follow G r.input ahead

def spell {N : Type} (name : N → String) : Symbol String N → String
  | .terminal a => a
  | .nonterminal A => name A

inductive Forest (G : ContextFreeGrammar String) (name : G.NT → String) :
    List (Symbol String G.NT) → List (ParseTree Unit) → Prop where
  | nil : Forest G name [] []
  | terminal {a : String} {form : List (Symbol String G.NT)} {trees : List (ParseTree Unit)}
      (hrest : Forest G name form trees) :
      Forest G name (.terminal a :: form) (.leaf a () :: trees)
  | nonterminal {r : ContextFreeRule String G.NT} {form : List (Symbol String G.NT)}
      {children trees : List (ParseTree Unit)} (hrule : r ∈ G.rules)
      (hchildren : Forest G name r.output children) (hrest : Forest G name form trees) :
      Forest G name (.nonterminal r.input :: form) (.branch (name r.input) children :: trees)

/-- The tree derives the word from the start symbol. -/
def DerivationTree (G : ContextFreeGrammar String) (name : G.NT → String) (tree : ParseTree Unit)
    (word : List String) : Prop :=
  Forest G name [.nonterminal G.initial] [tree] ∧ tree.frontier = word

theorem derives_append {front back front' back' : List (Symbol String G.NT)}
    (hfront : G.Derives front front') (hback : G.Derives back back') :
    G.Derives (front ++ back) (front' ++ back') :=
  (hfront.append_right back).trans (hback.append_left front')

theorem derives_rule {r : ContextFreeRule String G.NT} (hrule : r ∈ G.rules)
    {form : List (Symbol String G.NT)} (h : G.Derives r.output form) :
    G.Derives [.nonterminal r.input] form :=
  ContextFreeGrammar.Produces.trans_derives ⟨r, hrule, .input_output⟩ h

theorem derives_terminal_cons {a : String} {form form' : List (Symbol String G.NT)}
    (h : G.Derives (.terminal a :: form) form') : ∃ rest, form' = .terminal a :: rest := by
  induction h with
  | refl => exact ⟨form, rfl⟩
  | tail _ hstep ih =>
      obtain ⟨rest, rfl⟩ := ih
      obtain ⟨r, -, hrewrites⟩ := hstep
      cases hrewrites with
      | cons _ hrest => exact ⟨_, rfl⟩

theorem Forest.length_eq {form : List (Symbol String G.NT)} {trees : List (ParseTree Unit)}
    (h : Forest G name form trees) : trees.length = form.length := by
  induction h with
  | nil => rfl
  | terminal _ ih => simp [ih]
  | nonterminal _ _ _ _ ih => simp [ih]

theorem Forest.append {front back : List (Symbol String G.NT)} {first last : List (ParseTree Unit)}
    (hfront : Forest G name front first) (hback : Forest G name back last) :
    Forest G name (front ++ back) (first ++ last) := by
  induction hfront with
  | nil => exact hback
  | terminal _ ih => exact .terminal ih
  | nonterminal hrule hchildren _ _ ih => exact .nonterminal hrule hchildren ih

theorem Forest.append_cases {front back : List (Symbol String G.NT)}
    {trees : List (ParseTree Unit)} (h : Forest G name (front ++ back) trees) :
    ∃ first last, trees = first ++ last ∧ Forest G name front first ∧
      Forest G name back last := by
  induction front generalizing trees with
  | nil => exact ⟨[], trees, rfl, .nil, h⟩
  | cons s front ih =>
      cases h with
      | terminal hrest =>
          obtain ⟨first, last, rfl, hfirst, hlast⟩ := ih hrest
          exact ⟨_ :: first, last, rfl, .terminal hfirst, hlast⟩
      | nonterminal hrule hchildren hrest =>
          obtain ⟨first, last, rfl, hfirst, hlast⟩ := ih hrest
          exact ⟨_ :: first, last, rfl, .nonterminal hrule hchildren hfirst, hlast⟩

theorem Forest.derives {form : List (Symbol String G.NT)} {trees : List (ParseTree Unit)}
    (h : Forest G name form trees) :
    G.Derives form ((ParseTree.frontierAll trees).map .terminal) := by
  induction h with
  | nil => exact .refl _
  | @terminal a form trees _ ih => exact ih.append_left [.terminal a]
  | nonterminal hrule _ _ ihc ihr =>
      simpa [ParseTree.frontierAll, ParseTree.frontier] using
        derives_append (derives_rule hrule ihc) ihr

theorem exists_forest_terminals (name : G.NT → String) (word : List String) :
    ∃ trees, Forest G name (word.map .terminal) trees ∧ ParseTree.frontierAll trees = word := by
  induction word with
  | nil => exact ⟨[], .nil, rfl⟩
  | cons a word ih =>
      obtain ⟨trees, hforest, hfrontier⟩ := ih
      exact ⟨.leaf a () :: trees, .terminal hforest,
        by simp [ParseTree.frontierAll, ParseTree.frontier, hfrontier]⟩

/-- A form has trees for every word that it derives. Backwards along the derivation,
each rewriting puts the trees of a right-hand side under one node. -/
theorem exists_forest (name : G.NT → String) {form : List (Symbol String G.NT)}
    {word : List String} (h : G.Derives form (word.map .terminal)) :
    ∃ trees, Forest G name form trees ∧ ParseTree.frontierAll trees = word := by
  induction h using Relation.ReflTransGen.head_induction_on with
  | refl => exact exists_forest_terminals name word
  | head hstep _ ih =>
      obtain ⟨r, hrule, hrewrites⟩ := hstep
      obtain ⟨before, after, rfl, rfl⟩ := hrewrites.exists_parts
      obtain ⟨trees, hforest, rfl⟩ := ih
      obtain ⟨front, last, rfl, hfront, hlast⟩ := hforest.append_cases
      obtain ⟨first, children, rfl, hfirst, hchildren⟩ := hfront.append_cases
      refine ⟨(first ++ [.branch (name r.input) children]) ++ last,
        (hfirst.append (.nonterminal hrule hchildren .nil)).append hlast, ?_⟩
      simp [ParseTree.frontierAll_append, ParseTree.frontierAll, ParseTree.frontier]

theorem mem_language_iff_derivationTree (name : G.NT → String) (word : List String) :
    word ∈ G.language ↔ ∃ tree, DerivationTree G name tree word := by
  rw [ContextFreeGrammar.mem_language_iff]
  constructor
  · intro h
    obtain ⟨trees, hforest, hfrontier⟩ := exists_forest name h
    obtain ⟨tree, rfl⟩ := List.length_eq_one_iff.mp hforest.length_eq
    exact ⟨tree, hforest, by simpa [ParseTree.frontierAll] using hfrontier⟩
  · rintro ⟨tree, hforest, rfl⟩
    simpa [ParseTree.frontierAll] using hforest.derives

end ContextFree

namespace Grammar

open ContextFree

/-- No terminal of the form is written like a nonterminal. -/
def Apart {N : Type} (name : N → String) (form : List (Symbol String N)) : Prop :=
  ∀ a, .terminal a ∈ form → ∀ A, name A ≠ a

/-- The table is that of the grammar, whose nonterminals are written as the given names. -/
structure Predicts (g : Grammar) (G : ContextFreeGrammar String) (name : G.NT → String) :
    Prop where
  rules_apart : ∀ r ∈ G.rules, Apart name r.output
  startSymbol_eq : g.startSymbol = name G.initial
  isNonterminal_iff : ∀ symbol, g.isNonterminal symbol = true ↔ ∃ A, name A = symbol
  entry_iff : ∀ A ahead rhs, g.entry (name A) ahead = some rhs ↔
    ∃ r ∈ G.rules, r.input = A ∧ r.output.map (spell name) = rhs ∧ Chosen G r ahead

end Grammar

end Lookahead
