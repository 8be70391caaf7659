import Lookahead.Proofs.DemoTable
import Lookahead.Proofs.ParserAnswer

/-!
Acceptance by the table of a context-free grammar. The predictive derivations from
the start symbol are the derivation trees of the grammar: what the table names is a
rule, and the rule that a derivation tree uses at a node is the one that the table
names there. The latter is seen from the lookahead at the node, which is the first
leaf below it or, if it has none, what follows the node in the form that the rest of
the tree derives.
-/
namespace Lookahead

open ContextFree

/-- The word that a list of tokens spells. -/
def classes (tokens : List Token) : List String := tokens.map (·.lexClass)

theorem classes_append (front back : List Token) :
    classes (front ++ back) = classes front ++ classes back :=
  List.map_append

namespace Grammar

variable {g : Grammar} {G : ContextFreeGrammar String} {name : G.NT → String}

theorem Apart.tail {s : Symbol String G.NT} {form : List (Symbol String G.NT)}
    (h : Apart name (s :: form)) : Apart name form :=
  fun a ha => h a (List.mem_cons_of_mem s ha)

theorem apart_initial : Apart name [.nonterminal G.initial] := by
  intro a ha
  simp at ha

theorem Predicts.isNonterminal_name (h : g.Predicts G name) (A : G.NT) :
    g.isNonterminal (name A) = true :=
  (h.isNonterminal_iff (name A)).mpr ⟨A, rfl⟩

theorem Predicts.isNonterminal_terminal (h : g.Predicts G name) {a : String}
    {form : List (Symbol String G.NT)} (hform : Apart name (.terminal a :: form)) :
    g.isNonterminal a = false := by
  rw [Bool.eq_false_iff]
  intro hnonterminal
  obtain ⟨A, hA⟩ := (h.isNonterminal_iff a).mp hnonterminal
  exact hform a List.mem_cons_self A hA

/-- Predictive derivations are made of rules of the grammar. -/
theorem Predicts.forest_of_derives (h : g.Predicts G name) {form : List (Symbol String G.NT)}
    {input rest : List Token} {trees : List (ParseTree (String × Span))}
    (hform : Apart name form)
    (hderives : g.Derives (form.map (spell name)) input trees rest) :
    Forest G name form (ParseTree.shapes trees) := by
  generalize hsymbols : form.map (spell name) = symbols at hderives
  induction hderives generalizing form with
  | nil input =>
      obtain rfl := List.map_eq_nil_iff.mp hsymbols
      exact .nil
  | terminal hterminal _ _ ih =>
      obtain ⟨s, form, rfl, rfl, rfl⟩ := List.map_eq_cons_iff.mp hsymbols
      cases s with
      | terminal a => exact .terminal (ih hform.tail rfl)
      | nonterminal A => simp [spell, h.isNonterminal_name] at hterminal
  | nonterminal hnonterminal hentry _ _ ihc ihr =>
      obtain ⟨s, form, rfl, rfl, rfl⟩ := List.map_eq_cons_iff.mp hsymbols
      cases s with
      | terminal a => simp [spell, h.isNonterminal_terminal hform] at hnonterminal
      | nonterminal A =>
          obtain ⟨r, hrule, rfl, rfl, -⟩ := (h.entry_iff A _ _).mp hentry
          exact .nonterminal hrule (ihc (h.rules_apart r hrule) rfl) (ihr hform.tail rfl)

/-- The rule that derives a piece of the input is chosen in front of that piece. -/
theorem chosen_of_derives {r : ContextFreeRule String G.NT}
    {before : List (Symbol String G.NT)} {piece rest : List Token}
    (hpiece : G.Derives r.output ((classes piece).map .terminal))
    (hcontext : G.Generates (before ++ .nonterminal r.input :: (classes rest).map .terminal)) :
    Chosen G r (lookahead (piece ++ rest)) := by
  cases piece with
  | nil =>
      refine Or.inr ⟨hpiece, ?_⟩
      cases rest with
      | nil => exact ⟨before, hcontext⟩
      | cons t rest => exact ⟨before, _, hcontext⟩
  | cons t piece => exact Or.inl ⟨t.lexClass, rfl, _, hpiece⟩

/-- Derivation trees are predictive derivations, in front of whatever the form they
belong to goes on with. -/
theorem Predicts.derives_of_forest (h : g.Predicts G name)
    {before form : List (Symbol String G.NT)} {trees : List (ParseTree Unit)}
    {piece rest : List Token} (hform : Apart name form) (hforest : Forest G name form trees)
    (hpiece : ParseTree.frontierAll trees = classes piece)
    (hcontext : G.Generates (before ++ (form ++ (classes rest).map .terminal))) :
    ∃ parses, g.Derives (form.map (spell name)) (piece ++ rest) parses rest ∧
      ParseTree.shapes parses = trees := by
  induction hforest generalizing before piece rest with
  | nil =>
      obtain rfl := List.map_eq_nil_iff.mp hpiece.symm
      exact ⟨[], .nil rest, rfl⟩
  | @terminal a form trees hrest ih =>
      obtain ⟨t, piece, rfl, hclass, hpiece⟩ := List.map_eq_cons_iff.mp hpiece.symm
      have hnext : G.Generates ((before ++ [.terminal a]) ++
          (form ++ (classes rest).map .terminal)) := by
        simpa using hcontext
      obtain ⟨parses, hderives, rfl⟩ := ih hform.tail hpiece.symm hnext
      exact ⟨_, .terminal (h.isNonterminal_terminal hform) hclass hderives, rfl⟩
  | @nonterminal r form children trees hrule hchildren hrest ihc ihr =>
      obtain ⟨front, back, rfl, hfront, hback⟩ := List.map_eq_append_iff.mp hpiece.symm
      change classes front = ParseTree.frontierAll children at hfront
      change classes back = ParseTree.frontierAll trees at hback
      -- The rest of the form derives the rest of the input, so that is what follows
      -- the node, and, once the node is expanded, what follows its children.
      have hfollow : G.Generates (before ++ .nonterminal r.input ::
          (classes (back ++ rest)).map .terminal) := by
        have hlater := hrest.derives.append_right ((classes rest).map .terminal)
        rw [← hback, ← List.map_append, ← classes_append] at hlater
        exact hcontext.trans ((hlater.append_left [.nonterminal r.input]).append_left before)
      have hexpanded : G.Generates (before ++ (r.output ++
          (classes (back ++ rest)).map .terminal)) := by
        have hstep := (derives_rule hrule (.refl r.output)).append_right
          ((classes (back ++ rest)).map .terminal)
        exact hfollow.trans (hstep.append_left before)
      have hnext : G.Generates ((before ++ [.nonterminal r.input]) ++
          (form ++ (classes rest).map .terminal)) := by
        simpa using hcontext
      obtain ⟨below, hbelow, rfl⟩ := ihc (h.rules_apart r hrule) hfront.symm hexpanded
      obtain ⟨later, hlater, rfl⟩ := ihr hform.tail hback.symm hnext
      have hfirst : G.Derives r.output ((classes front).map .terminal) :=
        hfront ▸ hchildren.derives
      have hentry : g.entry (name r.input) (lookahead (front ++ (back ++ rest))) =
          some (r.output.map (spell name)) :=
        (h.entry_iff _ _ _).mpr ⟨r, hrule, rfl, rfl, chosen_of_derives hfirst hfollow⟩
      rw [List.append_assoc]
      exact ⟨_, .nonterminal (h.isNonterminal_name r.input) hentry hbelow hlater, rfl⟩

theorem Predicts.derivationTree_of_derives (h : g.Predicts G name) {input : List Token}
    {parse : ParseTree (String × Span)} (hderives : g.Derives [g.startSymbol] input [parse] []) :
    DerivationTree G name parse.shape (classes input) := by
  rw [h.startSymbol_eq] at hderives
  refine ⟨h.forest_of_derives apart_initial hderives, ?_⟩
  obtain ⟨piece, rfl, hfrontier⟩ := hderives.split
  have hshape := ParseTree.frontierAll_shapes [parse]
  simp only [ParseTree.shapes, ParseTree.frontierAll, List.append_nil] at hshape hfrontier
  rw [hshape, hfrontier, List.append_nil, classes]

theorem Predicts.derives_of_derivationTree (h : g.Predicts G name) {input : List Token}
    {tree : ParseTree Unit} (htree : DerivationTree G name tree (classes input)) :
    ∃ parse, g.Derives [g.startSymbol] input [parse] [] ∧ parse.shape = tree := by
  obtain ⟨hforest, hfrontier⟩ := htree
  have hpiece : ParseTree.frontierAll [tree] = classes input := by
    simpa [ParseTree.frontierAll] using hfrontier
  have hcontext : G.Generates ([] ++ ([.nonterminal G.initial] ++ (classes []).map .terminal)) :=
    .refl _
  obtain ⟨parses, hderives, hshapes⟩ := h.derives_of_forest apart_initial hforest hpiece hcontext
  obtain ⟨parse, rfl⟩ := hderives.single
  refine ⟨parse, ?_, by simpa [ParseTree.shapes] using hshapes⟩
  simpa [h.startSymbol_eq, spell] using hderives

/-- The table of a context-free grammar accepts its language: the parse of a list of
tokens succeeds and leaves nothing if and only if its word belongs to the language.
The tree is then the derivation tree of that word, of which there is only one. A
proper token never has the empty class, so it does not matter whether the grammar
has a terminal of that name. -/
theorem parse?_iff_mem_language (h : g.Predicts G name) (preferences : SyntaxPreferences)
    (tokens : List Token) :
    ((∃ bound run tree, g.parse? preferences bound (⟨tokens⟩ : TokenQueue) = some run ∧
        run.result = .ok ⟨tree, none⟩) ↔
      classes (proper tokens) ∈ G.language) ∧
    ∀ bound run tree, g.parse? preferences bound (⟨tokens⟩ : TokenQueue) = some run →
      run.result = .ok ⟨tree, none⟩ →
      ∃ parse, tree.Holds SyntaxTree.root parse ∧ tree.size = parse.descendantCount + 1 ∧
        DerivationTree G name parse.shape (classes (proper tokens)) ∧
        ∀ other, DerivationTree G name other (classes (proper tokens)) →
          other = parse.shape := by
  constructor
  · rw [mem_language_iff_derivationTree name]
    constructor
    · rintro ⟨bound, run, tree, hrun, hok⟩
      obtain ⟨parse, -, hparse⟩ := derives_of_complete hrun hok
      exact ⟨parse.shape, h.derivationTree_of_derives hparse⟩
    · rintro ⟨tree, htree⟩
      obtain ⟨parse, hparse, -⟩ := h.derives_of_derivationTree htree
      obtain ⟨bound, run, hrun, hok, -⟩ := parseAs?_of_derives preferences hparse
      exact ⟨bound, run, parse.arena, hrun, hok⟩
  · intro bound run tree hrun hok
    obtain ⟨parse, rfl, hparse⟩ := derives_of_complete hrun hok
    obtain ⟨hholds, hsize⟩ := SyntaxTree.holds_arena parse
    refine ⟨parse, hholds, hsize, h.derivationTree_of_derives hparse, ?_⟩
    intro other hother
    obtain ⟨parse', hparse', rfl⟩ := h.derives_of_derivationTree hother
    obtain ⟨hsame, -⟩ := hparse'.unique hparse
    rw [(List.cons.inj hsame).1]

theorem parse?_iff_mem_language_demo :
    Demo.grammar.Predicts Demo.balanced Subtype.val ∧
    ∃ bound run tree, Demo.grammar.parse? {} bound
        (⟨[⟨"ab", Demo.evenClass, .origin⟩, ⟨" ", triviaClass, .origin⟩,
          ⟨"&&", Demo.andClass, .origin⟩]⟩ : TokenQueue) = some run ∧
      run.result = .ok ⟨tree, none⟩ ∧
      ∃ parse, tree.Holds SyntaxTree.root parse ∧
        ∀ other, DerivationTree Demo.balanced Subtype.val other [Demo.evenClass, Demo.andClass] →
          other = parse.shape := by
  have hlanguage : [Demo.evenClass, Demo.andClass] ∈ Demo.balanced.language := by
    have hvanish : Forest Demo.balanced Subtype.val [.nonterminal Demo.start]
        [.branch Demo.startSymbol []] :=
      .nonterminal ((Demo.mem_rules_iff _).mpr (Or.inl rfl)) .nil .nil
    exact derives_rule ((Demo.mem_rules_iff Demo.enclose).mpr (Or.inr rfl))
      (Forest.derives (.terminal (hvanish.append (.terminal hvanish))))
  have h := parse?_iff_mem_language Demo.predicts {}
    [⟨"ab", Demo.evenClass, .origin⟩, ⟨" ", triviaClass, .origin⟩, ⟨"&&", Demo.andClass, .origin⟩]
  obtain ⟨bound, run, tree, hrun, hok⟩ := h.1.mpr hlanguage
  obtain ⟨parse, hholds, -, -, hunique⟩ := h.2 bound run tree hrun hok
  exact ⟨Demo.predicts, bound, run, tree, hrun, hok, parse, hholds, hunique⟩

end Grammar

end Lookahead
