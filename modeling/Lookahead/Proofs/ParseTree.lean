import Lookahead.Tree.Basic

/-!
Trees as recursive values, and how the parser lays them out. The array of a syntax
tree is filled in the order in which nonterminals are expanded: all children of a
node stand in one block, and the blocks below the first child come before those
below the second. `arena` computes that array from a tree, and `Holds` reads a
tree back from an array by following the children.
-/
namespace Lookahead

inductive ParseTree (α : Type) where
  | leaf (label : String) (content : α)
  | branch (label : String) (children : List (ParseTree α))

namespace ParseTree

variable {α : Type}

def label : ParseTree α → String
  | .leaf label _ | .branch label _ => label

/-- Forests by their first tree, which is a leaf or stands over a forest. -/
@[elab_as_elim]
theorem forestInduction {motive : List (ParseTree α) → Prop} (nil : motive [])
    (leaf : ∀ label content trees, motive trees → motive (.leaf label content :: trees))
    (branch : ∀ label children trees, motive children → motive trees →
      motive (.branch label children :: trees))
    (trees : List (ParseTree α)) : motive trees :=
  @ParseTree.rec_1 α (fun tree => ∀ trees, motive trees → motive (tree :: trees)) motive
    leaf (fun label children below trees => branch label children trees below) nil
    (fun _ trees first rest => first trees rest) trees

mutual

def frontier : ParseTree α → List String
  | .leaf label _ => [label]
  | .branch _ children => frontierAll children

def frontierAll : List (ParseTree α) → List String
  | [] => []
  | tree :: trees => tree.frontier ++ frontierAll trees

end

mutual

/-- The tree without what its leaves hold. -/
def shape : ParseTree α → ParseTree Unit
  | .leaf label _ => .leaf label ()
  | .branch label children => .branch label (shapes children)

def shapes : List (ParseTree α) → List (ParseTree Unit)
  | [] => []
  | tree :: trees => tree.shape :: shapes trees

end

mutual

def descendantCount : ParseTree α → Nat
  | .leaf _ _ => 0
  | .branch _ children => children.length + descendantCounts children

def descendantCounts : List (ParseTree α) → Nat
  | [] => 0
  | tree :: trees => tree.descendantCount + descendantCounts trees

end

/-- The root's node, if the blocks below it start at the given index. -/
def node (first : Nat) : ParseTree (String × Span) → Node
  | .leaf label content => ⟨label, .terminal (some content)⟩
  | .branch label children =>
      ⟨label, .nonterminal
        (some (children.map ParseTree.label, List.range' first children.length))⟩

def roots (first : Nat) : List (ParseTree (String × Span)) → List Node
  | [] => []
  | tree :: trees => tree.node first :: roots (first + tree.descendantCount) trees

mutual

def blocks (first : Nat) : ParseTree (String × Span) → List Node
  | .leaf _ _ => []
  | .branch _ children =>
      roots (first + children.length) children ++ blocksAll (first + children.length) children

def blocksAll (first : Nat) : List (ParseTree (String × Span)) → List Node
  | [] => []
  | tree :: trees => tree.blocks first ++ blocksAll (first + tree.descendantCount) trees

end

def arena (tree : ParseTree (String × Span)) : SyntaxTree :=
  ⟨(tree.node 1 :: tree.blocks 1).toArray⟩

theorem frontierAll_append (first last : List (ParseTree α)) :
    frontierAll (first ++ last) = frontierAll first ++ frontierAll last := by
  induction first with
  | nil => rfl
  | cons tree first ih => simp [frontierAll, ih]

theorem frontierAll_shapes (trees : List (ParseTree α)) :
    frontierAll (shapes trees) = frontierAll trees := by
  induction trees using forestInduction with
  | nil => rfl
  | leaf label content trees ih => simp [shapes, shape, frontierAll, frontier, ih]
  | branch label children trees ihc iht =>
      simp [shapes, shape, frontierAll, frontier, ihc, iht]

@[simp] theorem length_roots (first : Nat) (trees : List (ParseTree (String × Span))) :
    (roots first trees).length = trees.length := by
  induction trees generalizing first with
  | nil => rfl
  | cons tree trees ih => simp [roots, ih]

@[simp] theorem length_blocksAll (first : Nat) (trees : List (ParseTree (String × Span))) :
    (blocksAll first trees).length = descendantCounts trees := by
  induction trees using forestInduction generalizing first with
  | nil => rfl
  | leaf label content trees ih => simp [blocksAll, blocks, descendantCounts, descendantCount, ih]
  | branch label children trees ihc iht =>
      simp [blocksAll, blocks, descendantCounts, descendantCount, ihc, iht, Nat.add_assoc]

end ParseTree

namespace SyntaxTree

mutual

def Holds (t : SyntaxTree) (id : Nat) : ParseTree (String × Span) → Prop
  | .leaf label content => t.get? id = some ⟨label, .terminal (some content)⟩
  | .branch label children =>
      ∃ ids, t.get? id =
        some ⟨label, .nonterminal (some (children.map ParseTree.label, ids))⟩ ∧
        HoldsAll t ids children

def HoldsAll (t : SyntaxTree) : List Nat → List (ParseTree (String × Span)) → Prop
  | [], [] => True
  | id :: ids, tree :: trees => Holds t id tree ∧ HoldsAll t ids trees
  | _, _ => False

end

theorem get?_of_toList {t : SyntaxTree} {before after : List Node} {n : Node}
    (h : t.nodes.toList = before ++ n :: after) : t.get? before.length = some n := by
  simp [get?, ← Array.getElem?_toList, h]

/-- A forest that is laid out somewhere in an array can be read back: its roots
stand in one block, and the blocks below them come one after the other later on. -/
theorem holdsAll_of_layout {t : SyntaxTree} {first : Nat} {before after rest : List Node}
    {trees : List (ParseTree (String × Span))}
    (hfirst : first = before.length + trees.length + after.length)
    (hnodes : t.nodes.toList =
      before ++ (ParseTree.roots first trees ++ (after ++
        (ParseTree.blocksAll first trees ++ rest)))) :
    t.HoldsAll (List.range' before.length trees.length) trees := by
  induction trees using ParseTree.forestInduction generalizing first before after rest with
  | nil => trivial
  | leaf label content trees ih =>
      refine ⟨get?_of_toList hnodes, ?_⟩
      have hrest := @ih first (before ++ [⟨label, .terminal (some content)⟩]) after rest
        (by simp at hfirst ⊢; omega) (by simpa [ParseTree.roots, ParseTree.node,
          ParseTree.blocksAll, ParseTree.blocks, ParseTree.descendantCount] using hnodes)
      simpa using hrest
  | branch label children trees ihc iht =>
      have hcount : (ParseTree.branch label children).descendantCount =
          children.length + ParseTree.descendantCounts children := rfl
      simp only [ParseTree.roots, ParseTree.blocksAll, ParseTree.blocks, hcount] at hnodes
      refine ⟨⟨_, get?_of_toList hnodes, ?_⟩, ?_⟩
      · have hchildren := @ihc (first + children.length)
          (before ++ (ParseTree.branch label children).node first ::
            (ParseTree.roots (first + (children.length + ParseTree.descendantCounts children))
              trees ++ after)) []
          (ParseTree.blocksAll (first + (children.length + ParseTree.descendantCounts children))
            trees ++ rest)
          (by simp at hfirst ⊢; omega) (by simpa using hnodes)
        have hlength : (before ++ (ParseTree.branch label children).node first ::
            (ParseTree.roots (first + (children.length + ParseTree.descendantCounts children))
              trees ++ after)).length = first := by
          simp at hfirst ⊢
          omega
        rwa [hlength] at hchildren
      · have htrees := @iht (first + (children.length + ParseTree.descendantCounts children))
          (before ++ [(ParseTree.branch label children).node first])
          (after ++ (ParseTree.roots (first + children.length) children ++
            ParseTree.blocksAll (first + children.length) children)) rest
          (by simp at hfirst ⊢; omega) (by simpa using hnodes)
        simpa using htrees

/-- The parser's array of a tree holds that tree, and nothing else. -/
theorem holds_arena (tree : ParseTree (String × Span)) :
    tree.arena.Holds root tree ∧ tree.arena.size = tree.descendantCount + 1 := by
  constructor
  · have h := @holdsAll_of_layout tree.arena 1 [] [] [] [tree] rfl
      (by simp [ParseTree.arena, ParseTree.roots, ParseTree.blocksAll])
    exact h.1
  · have h := ParseTree.length_blocksAll 1 [tree]
    simp only [ParseTree.blocksAll, ParseTree.descendantCounts, List.append_nil,
      Nat.add_zero] at h
    simp [size, ParseTree.arena, h]

end SyntaxTree

end Lookahead
