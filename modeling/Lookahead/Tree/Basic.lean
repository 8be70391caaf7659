import Lookahead.Text.Quoted
import Lookahead.Token

/-!
Syntax trees. The nodes of a tree stand in one array, in the order in which they
came into being, and refer to each other by index; the root comes first. A
terminal holds the text it has matched, a nonterminal the right-hand side it was
replaced with and one child for each symbol of it.
-/
namespace Lookahead

inductive NodeKind where
  | terminal (matched : Option (String × Span))
  | nonterminal (expansion : Option (List String × List Nat))
deriving DecidableEq, Repr

structure Node where
  label : String
  kind : NodeKind
deriving DecidableEq, Repr

namespace Node

/-- A node that has not been matched or expanded yet. -/
def fresh (label : String) (isNonterminal : Bool) : Node :=
  ⟨label, if isNonterminal then .nonterminal none else .terminal none⟩

def isTerminal (n : Node) : Bool :=
  match n.kind with
  | .terminal _ => true
  | .nonterminal _ => false

def value? (n : Node) : Option String :=
  match n.kind with
  | .terminal matched => matched.map (·.1)
  | .nonterminal _ => none

def span? (n : Node) : Option Span :=
  match n.kind with
  | .terminal matched => matched.map (·.2)
  | .nonterminal _ => none

def rhs? (n : Node) : Option (List String) :=
  match n.kind with
  | .terminal _ => none
  | .nonterminal expansion => expansion.map (·.1)

def children (n : Node) : List Nat :=
  match n.kind with
  | .nonterminal (some (_, children)) => children
  | _ => []

/-- A nonterminal that was replaced with nothing. -/
def isEpsilon (n : Node) : Bool := n.rhs? == some []

def setMatched (n : Node) (value : String) (span : Span) : Node :=
  match n.kind with
  | .terminal _ => { n with kind := .terminal (some (value, span)) }
  | .nonterminal _ => n

def setExpansion (n : Node) (rhs : List String) (children : List Nat) : Node :=
  match n.kind with
  | .terminal _ => n
  | .nonterminal _ => { n with kind := .nonterminal (some (rhs, children)) }

end Node

structure SyntaxTree where
  nodes : Array Node

namespace SyntaxTree

def root : Nat := 0

def ofRoot (node : Node) : SyntaxTree := ⟨#[node]⟩

def size (t : SyntaxTree) : Nat := t.nodes.size

def isEmpty (t : SyntaxTree) : Bool := t.nodes.isEmpty

def get? (t : SyntaxTree) (id : Nat) : Option Node := t.nodes[id]?

def label (t : SyntaxTree) (id : Nat) : String :=
  match t.get? id with
  | some node => node.label
  | none => ""

def childrenOf (t : SyntaxTree) (id : Nat) : List Nat :=
  match t.get? id with
  | some node => node.children
  | none => []

/-- Adds nodes at the end. -/
def append (t : SyntaxTree) (nodes : List Node) : SyntaxTree := ⟨nodes.foldl Array.push t.nodes⟩

def setMatched (t : SyntaxTree) (id : Nat) (value : String) (span : Span) : SyntaxTree :=
  ⟨t.nodes.modify id (·.setMatched value span)⟩

def setExpansion (t : SyntaxTree) (id : Nat) (rhs : List String) (children : List Nat) :
    SyntaxTree :=
  ⟨t.nodes.modify id (·.setExpansion rhs children)⟩

/-- The node at the end of a path of child indices that starts at the given node. -/
def follow (t : SyntaxTree) (id : Nat) : List Nat → Option Nat
  | [] => some id
  | index :: path =>
      match (t.childrenOf id)[index]? with
      | none => none
      | some child => t.follow child path

/-- Visits the nodes on the stack, each before its children, the first child
first. The fuel bounds the number of visits. -/
def visit (t : SyntaxTree) : Nat → List Nat → List Nat → List Nat
  | 0, _, visited => visited.reverse
  | _ + 1, [], visited => visited.reverse
  | fuel + 1, id :: stack, visited =>
      t.visit fuel (t.childrenOf id ++ stack) (id :: visited)

/-- All nodes, depth first and left to right. -/
def preOrder (t : SyntaxTree) : List Nat := t.visit t.size [root] []

/-- The matched terminals from left to right. -/
def leaves (t : SyntaxTree) : List Nat :=
  t.preOrder.filter fun id => ((t.get? id).bind (·.value?)).isSome

/-- The texts of the matched terminals from left to right. -/
def leafValues (t : SyntaxTree) : List String :=
  t.preOrder.filterMap fun id => (t.get? id).bind (·.value?)

end SyntaxTree

end Lookahead
