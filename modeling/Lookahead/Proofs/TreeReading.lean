import Lookahead.Proofs.ParserStack

/-!
What a finished tree says about the parse. The walk over the array of a tree comes to
the leaves of the tree from left to right, and these are the tokens that the
derivation has used up. The nodes of the array are the subtrees of the tree, so the
counts that a parse keeps are numbers of subtrees.
-/
namespace Lookahead

namespace ParseTree

mutual

/-- The leaves from left to right, as the nodes that an array has for them. -/
def leafNodes : ParseTree (String × Span) → List Node
  | .leaf label content => [⟨label, .terminal (some content)⟩]
  | .branch _ children => leafNodesAll children

def leafNodesAll : List (ParseTree (String × Span)) → List Node
  | [] => []
  | tree :: trees => tree.leafNodes ++ leafNodesAll trees

end

variable {α : Type}

mutual

/-- The number of the subtrees that pass a test, the tree itself included. -/
def subtreeCount (test : ParseTree α → Bool) : ParseTree α → Nat
  | .leaf label content => (test (.leaf label content)).toNat
  | .branch label children =>
      (test (.branch label children)).toNat + subtreeCounts test children

def subtreeCounts (test : ParseTree α → Bool) : List (ParseTree α) → Nat
  | [] => 0
  | tree :: trees => tree.subtreeCount test + subtreeCounts test trees

end

def isLeaf : ParseTree α → Bool
  | .leaf _ _ => true
  | .branch _ _ => false

def isBranch : ParseTree α → Bool
  | .leaf _ _ => false
  | .branch _ _ => true

def isEmptyBranch : ParseTree α → Bool
  | .branch _ [] => true
  | _ => false

/-- A forest in an array is counted by its subtrees, if the test of a node does not ask
where the children of the node stand. -/
theorem countP_forest {P : Node → Bool} {test : ParseTree (String × Span) → Bool}
    (h : ∀ first tree, P (tree.node first) = test tree) (first : Nat)
    (trees : List (ParseTree (String × Span))) :
    (roots first trees).countP P + (blocksAll first trees).countP P = subtreeCounts test trees := by
  induction trees using forestInduction generalizing first with
  | nil => rfl
  | leaf label content trees ih =>
      have hrest := ih (first + (ParseTree.leaf label content).descendantCount)
      simp only [roots, blocksAll, blocks, subtreeCounts, subtreeCount, ← hrest,
        List.countP_cons, List.nil_append, h first]
      cases test (.leaf label content) with
      | false => simp
      | true =>
          simp
          omega
  | branch label children trees ihc iht =>
      have hbelow := ihc (first + children.length)
      have hrest := iht (first + (ParseTree.branch label children).descendantCount)
      simp only [roots, blocksAll, blocks, subtreeCounts, subtreeCount, ← hbelow, ← hrest,
        List.countP_cons, List.countP_append, h first]
      cases test (.branch label children) <;> simp <;> omega

theorem countP_arena {P : Node → Bool} {test : ParseTree (String × Span) → Bool}
    (h : ∀ first tree, P (tree.node first) = test tree) (tree : ParseTree (String × Span)) :
    tree.arena.nodes.toList.countP P = tree.subtreeCount test := by
  have hforest := countP_forest h 1 [tree]
  simp only [roots, blocksAll, subtreeCounts, List.append_nil, Nat.add_zero] at hforest
  rw [← hforest, ← List.countP_append]
  rfl

theorem isExpanded_node (first : Nat) (tree : ParseTree (String × Span)) :
    (tree.node first).isExpanded = tree.isBranch := by
  cases tree <;> rfl

theorem isEpsilon_node (first : Nat) (tree : ParseTree (String × Span)) :
    (tree.node first).isEpsilon = tree.isEmptyBranch := by
  cases tree with
  | leaf label content => rfl
  | branch label children => cases children <;> rfl

theorem isMatched_node (first : Nat) (tree : ParseTree (String × Span)) :
    (tree.node first).isMatched = tree.isLeaf := by
  cases tree <;> rfl

end ParseTree

namespace SyntaxTree

variable {t : SyntaxTree}

/-- A matched terminal stands at an index. -/
def leafAt (t : SyntaxTree) (id : Nat) : Bool := ((t.get? id).bind (·.value?)).isSome

theorem leaves_eq_filter (t : SyntaxTree) : t.leaves = t.preOrder.filter t.leafAt := rfl

/-- The walk through a forest that an array holds. -/
theorem HoldsAll.depthFirst {ids : List Nat} {trees : List (ParseTree (String × Span))}
    (h : t.HoldsAll ids trees) :
    ∃ order, t.DepthFirst ids order ∧
      order.length = trees.length + ParseTree.descendantCounts trees ∧
      (order.filter t.leafAt).map t.get? = (ParseTree.leafNodesAll trees).map some := by
  induction trees using ParseTree.forestInduction generalizing ids with
  | nil =>
      cases ids with
      | nil => exact ⟨[], .nil, rfl, rfl⟩
      | cons id ids => exact h.elim
  | leaf label content trees ih =>
      cases ids with
      | nil => exact h.elim
      | cons id ids =>
          obtain ⟨hnode, hrest⟩ := h
          have hnode : t.get? id = some ⟨label, .terminal (some content)⟩ := hnode
          obtain ⟨order, hwalk, hlength, hleaves⟩ := ih hrest
          have hbelow : t.DepthFirst (t.childrenOf id) [] := by
            simp only [childrenOf, hnode, Node.children]
            exact .nil
          have hleaf : t.leafAt id = true := by
            simp [leafAt, hnode, Node.value?]
          refine ⟨_, .cons hbelow hwalk, ?_, ?_⟩
          · simp [hlength, ParseTree.descendantCounts, ParseTree.descendantCount]
            omega
          · simp [hleaf, hnode, hleaves, ParseTree.leafNodesAll, ParseTree.leafNodes]
  | branch label children trees ihc iht =>
      cases ids with
      | nil => exact h.elim
      | cons id ids =>
          obtain ⟨⟨kids, hnode, hkids⟩, hrest⟩ := h
          obtain ⟨below, hbelow, hlength, hleaves⟩ := ihc hkids
          obtain ⟨after, hafter, hlength', hleaves'⟩ := iht hrest
          have hchildren : t.childrenOf id = kids := by
            simp only [childrenOf, hnode, Node.children]
          have hleaf : t.leafAt id = false := by
            simp [leafAt, hnode, Node.value?]
          rw [← hchildren] at hbelow
          refine ⟨_, .cons hbelow hafter, ?_, ?_⟩
          · simp [hlength, hlength', ParseTree.descendantCounts, ParseTree.descendantCount]
            omega
          · simp [hleaf, hleaves, hleaves', ParseTree.leafNodesAll, ParseTree.leafNodes]

/-- The leaves of the parser's array of a tree are the leaves of the tree. -/
theorem leaves_arena (tree : ParseTree (String × Span)) :
    tree.arena.leaves.map tree.arena.get? = tree.leafNodes.map some := by
  obtain ⟨hholds, hsize⟩ := holds_arena tree
  have hall : tree.arena.HoldsAll [root] [tree] := ⟨hholds, trivial⟩
  obtain ⟨order, hwalk, hlength, hleaves⟩ := hall.depthFirst
  have horder : tree.arena.preOrder = order := by
    apply preOrder_of_depthFirst hwalk
    rw [hlength, hsize]
    simp [ParseTree.descendantCounts]
    omega
  rw [leaves_eq_filter, horder, hleaves]
  simp [ParseTree.leafNodesAll]

end SyntaxTree

/-- The node of a terminal that has matched the token. -/
def Token.leafNode (x : Token) : Node := ⟨x.lexClass, .terminal (some (x.value, x.span))⟩

namespace Grammar

variable {τ : Type} [TokenStream τ] {stream : τ} {g : Grammar}
  {preferences : SyntaxPreferences} {symbol : String}

/-- The leaves of a derivation are the tokens that it uses up. -/
theorem Derives.leafNodes {symbols : List String} {input rest : List Token}
    {trees : List (ParseTree (String × Span))} (h : g.Derives symbols input trees rest) :
    ∃ piece, input = piece ++ rest ∧
      ParseTree.leafNodesAll trees = piece.map Token.leafNode := by
  induction h with
  | nil input => exact ⟨[], rfl, rfl⟩
  | @terminal label x symbols input rest trees hterminal hclass hrest ih =>
      obtain ⟨piece, rfl, hleaves⟩ := ih
      refine ⟨x :: piece, rfl, ?_⟩
      simp [ParseTree.leafNodesAll, ParseTree.leafNodes, hleaves, Token.leafNode, hclass]
  | nonterminal hnonterminal hentry hchildren hrest ihc ihr =>
      obtain ⟨front, rfl, hfront⟩ := ihc
      obtain ⟨back, rfl, hback⟩ := ihr
      refine ⟨front ++ back, by simp, ?_⟩
      simp [ParseTree.leafNodesAll, ParseTree.leafNodes, hfront, hback]

/-- A parse that succeeds has come, by sound steps, to an empty stack. -/
theorem sound_of_ok {bound : Nat} {run : ParseRun τ} {tree : SyntaxTree} {trailing : Option Token}
    (h : g.parseAs? preferences bound symbol stream = some run)
    (hok : run.result = .ok ⟨tree, trailing⟩) :
    ∃ (p : Parse τ) (order : List Nat), p.Sound g symbol order ∧ p.stack.toList = [] ∧
      p.tree = tree ∧ p.metrics = run.metrics := by
  obtain ⟨last, hrun, hparts⟩ := run_of_parseAs? h
  rw [hok] at hrun
  obtain ⟨n, p, order, hsteps, hstop⟩ := Parse.afterSteps_of_run hrun
  obtain ⟨hstack, htree, hmetrics⟩ := Parse.step_stopped_ok hstop
  refine ⟨p, order, (Parse.sound_start g symbol stream).afterSteps hsteps, hstack, htree.symm, ?_⟩
  rw [hparts, ← hmetrics]

/-- The counts of a parse that succeeds are numbers of subtrees of its tree. -/
theorem metrics_of_ok {bound : Nat} {run : ParseRun τ} {tree : ParseTree (String × Span)}
    {trailing : Option Token} (h : g.parseAs? preferences bound symbol stream = some run)
    (hok : run.result = .ok ⟨tree.arena, trailing⟩) :
    run.metrics.expansions = tree.subtreeCount ParseTree.isBranch ∧
    run.metrics.epsilonExpansions = tree.subtreeCount ParseTree.isEmptyBranch ∧
    run.metrics.terminalsMatched = tree.subtreeCount ParseTree.isLeaf ∧
    tree.arena.size = run.metrics.expansions + run.metrics.terminalsMatched := by
  obtain ⟨p, order, hsound, hstack, htree, hmetrics⟩ := sound_of_ok h hok
  rw [← hmetrics]
  refine ⟨?_, ?_, ?_, ?_⟩
  · rw [hsound.expansions, htree, ParseTree.countP_arena ParseTree.isExpanded_node]
  · rw [hsound.epsilonExpansions, htree, ParseTree.countP_arena ParseTree.isEpsilon_node]
  · rw [hsound.terminalsMatched, htree, ParseTree.countP_arena ParseTree.isMatched_node]
  · rw [← htree]
    exact hsound.size_eq hstack

end Grammar

end Lookahead
