import Lookahead.Tree.Basic

/-!
Texts of a syntax tree: on one line with brackets, on one line per node, as a
JSON document, and the short text under which a single node is listed. The walks
keep their own stack of what is still to be written.
-/
namespace Lookahead

namespace SyntaxTree

/-- What a one-line rendering has still to write. -/
inductive Piece where
  | node (id : Nat)
  | text (value : String)
deriving DecidableEq, Repr

/-- The children of a node with a space between each two of them. -/
def spaced (children : List Nat) : List Piece := (children.map .node).intersperse (.text " ")

/-- A node's own text, and the pieces that follow it at once. -/
def pieces (node : Node) : String × List Piece :=
  match node.kind with
  | .terminal none | .nonterminal none => (node.label, [])
  | .terminal (some (value, _)) => (node.label ++ "=\"" ++ value ++ "\"", [])
  | .nonterminal (some (_, children)) => (node.label ++ "(", spaced children ++ [.text ")"])

def renderFrom (t : SyntaxTree) : Nat → List Piece → String → String
  | 0, _, out => out
  | _ + 1, [], out => out
  | fuel + 1, .text value :: stack, out => t.renderFrom fuel stack (out ++ value)
  | fuel + 1, .node id :: stack, out =>
      match t.get? id with
      | none => t.renderFrom fuel stack out
      | some node =>
          let (text, following) := pieces node
          t.renderFrom fuel (following ++ stack) (out ++ text)

/-- The one-line text. A walk writes every node once, and for every node at most
a closing bracket and the space before it. -/
def render (t : SyntaxTree) : String := t.renderFrom (3 * t.size) [.node root] ""

/-- The text of a node on a line of its own. -/
def lineText (node : Node) : String :=
  match node.kind with
  | .terminal (some (value, _)) => node.label ++ " \"" ++ value ++ "\""
  | .nonterminal (some ([], _)) => node.label ++ " ε"
  | _ => node.label

def renderLines (t : SyntaxTree) : Nat → List (Nat × Nat) → String → String
  | 0, _, out => out
  | _ + 1, [], out => out
  | fuel + 1, (id, depth) :: stack, out =>
      match t.get? id with
      | none => t.renderLines fuel stack out
      | some node =>
          let indent := String.ofList (List.replicate (2 * depth) ' ')
          t.renderLines fuel (node.children.map (·, depth + 1) ++ stack)
            (out ++ indent ++ lineText node ++ "\n")

/-- One line per node, two spaces for each level. -/
def renderIndented (t : SyntaxTree) : String := t.renderLines t.size [(root, 0)] ""

end SyntaxTree

namespace Node

def toJson (n : Node) : Json :=
  match n.kind with
  | .terminal matched =>
      .obj [
        ("label", .str n.label),
        ("kind", .str "terminal"),
        ("value", match matched with | some (value, _) => .str value | none => .null),
        ("span", match matched with | some (_, span) => span.toJson | none => .null)]
  | .nonterminal expansion =>
      .obj [
        ("label", .str n.label),
        ("kind", .str "nonterminal"),
        ("rhs", match expansion with | some (rhs, _) => .arr (rhs.map .str) | none => .null),
        ("children", .arr (n.children.map .num))]

/-- The text under which a node is listed. -/
def describe (n : Node) (id : Nat) : String :=
  let value := match n.value? with
    | some value => "Some(" ++ Quoted.text value ++ ")"
    | none => "None"
  "NodeRef \x7b id: NodeId(" ++ toString id ++ "), label: " ++ Quoted.text n.label ++
    ", value: " ++ value ++ " \x7d"

end Node

namespace SyntaxTree

def toJson (t : SyntaxTree) : Json :=
  .obj [("root", .num root), ("nodes", .arr (t.nodes.toList.map Node.toJson))]

end SyntaxTree

end Lookahead
