import Lookahead.Bundled.Demo
import Lookahead.Proofs.TreeReading
import Lookahead.Tree.Render

/-!
The walks through a finished tree, against the tree as a recursive value. An outline
is a node with its index over the outlines of its children, and says by plain recursion
in which order the nodes come and what the two texts are. The walks go over the array
with a stack of their own. What such a walk does with the top of its stack does not
depend on what is below, so a walk is put together from the walks of the subtrees.
-/
namespace Lookahead

inductive Outline where
  | node (id : Nat) (content : Node) (below : List Outline)

namespace Outline

def id : Outline → Nat
  | .node id _ _ => id

/-- Forests by their first tree, which stands over a forest. -/
@[elab_as_elim]
theorem forestInduction {motive : List Outline → Prop} (nil : motive [])
    (cons : ∀ id n below outlines, motive below → motive outlines →
      motive (.node id n below :: outlines))
    (outlines : List Outline) : motive outlines :=
  @Outline.rec_1 (fun outline => ∀ outlines, motive outlines → motive (outline :: outlines)) motive
    (fun id n below ihbelow outlines => cons id n below outlines ihbelow) nil
    (fun _ outlines first rest => first outlines rest) outlines

mutual

/-- Each node before its children, and the first child first. -/
def preOrder : Outline → List Nat
  | .node id _ below => id :: preOrderAll below

def preOrderAll : List Outline → List Nat
  | [] => []
  | outline :: outlines => outline.preOrder ++ preOrderAll outlines

end

mutual

/-- The text on one line: a terminal with its value, a nonterminal with its children
in brackets. -/
def text : Outline → String
  | .node _ n below =>
      match n.value? with
      | some value => n.label ++ "=\"" ++ value ++ "\""
      | none => n.label ++ "(" ++ String.intercalate " " (texts below) ++ ")"

def texts : List Outline → List String
  | [] => []
  | outline :: outlines => outline.text :: texts outlines

end

/-- What follows the label of a node on its line. -/
def remark (n : Node) : String :=
  match n.value? with
  | some value => " \"" ++ value ++ "\""
  | none => if n.rhs? = some [] then " ε" else ""

mutual

/-- One line for each node, two spaces further in than the line of its parent. -/
def lines (depth : Nat) : Outline → List String
  | .node _ n below =>
      (String.ofList (List.replicate (2 * depth) ' ') ++ n.label ++ remark n) ::
        linesAll (depth + 1) below

def linesAll (depth : Nat) : List Outline → List String
  | [] => []
  | outline :: outlines => outline.lines depth ++ linesAll depth outlines

end

end Outline

theorem Node.closed_cases {n : Node} (h : n.isOpen = false) :
    (∃ content, n.kind = .terminal (some content)) ∨
      ∃ expansion, n.kind = .nonterminal (some expansion) := by
  obtain ⟨label, kind⟩ := n
  cases kind with
  | terminal matched =>
      cases matched with
      | none => cases h
      | some content => exact Or.inl ⟨content, rfl⟩
  | nonterminal expansion =>
      cases expansion with
      | none => cases h
      | some expansion => exact Or.inr ⟨expansion, rfl⟩

namespace SyntaxTree

mutual

/-- The array has the nodes of the outline at their indices, and follows its branches. -/
def HasOutline (t : SyntaxTree) : Outline → Prop
  | .node id n below =>
      t.get? id = some n ∧ n.children = below.map Outline.id ∧ t.HasOutlines below

def HasOutlines (t : SyntaxTree) : List Outline → Prop
  | [] => True
  | outline :: outlines => t.HasOutline outline ∧ t.HasOutlines outlines

end

variable {t : SyntaxTree}

/-- An outline is determined by the index of its root. -/
theorem HasOutlines.unique {outlines others : List Outline} (h : t.HasOutlines outlines)
    (hothers : t.HasOutlines others) (hids : others.map Outline.id = outlines.map Outline.id) :
    others = outlines := by
  induction outlines using Outline.forestInduction generalizing others with
  | nil => exact List.map_eq_nil_iff.mp hids
  | cons id n below outlines ihbelow ih =>
      cases others with
      | nil => cases hids
      | cons other others =>
          obtain ⟨id', n', below'⟩ := other
          obtain ⟨hid, hrest⟩ := List.cons.inj hids
          obtain ⟨⟨hnode, hchildren, hbelow⟩, houtlines⟩ := h
          obtain ⟨⟨hnode', hchildren', hbelow'⟩, hothers⟩ := hothers
          obtain rfl : id' = id := hid
          obtain rfl : n = n' := Option.some.inj (hnode.symm.trans hnode')
          obtain rfl := ihbelow hbelow hbelow' (hchildren'.symm.trans hchildren)
          obtain rfl := ih houtlines hothers hrest
          rfl

/-- A depth-first walk is that of a forest of outlines. -/
theorem DepthFirst.outlines {ids order : List Nat} (h : t.DepthFirst ids order)
    (hlt : ∀ id ∈ order, id < t.size) :
    ∃ outlines, t.HasOutlines outlines ∧ outlines.map Outline.id = ids ∧
      Outline.preOrderAll outlines = order := by
  induction h with
  | nil => exact ⟨[], trivial, rfl, rfl⟩
  | @cons id ids below after hbelow hafter ihbelow ihafter =>
      obtain ⟨forest, hforest, hids, horder⟩ :=
        ihbelow fun x hx => hlt x (by simp [hx])
      obtain ⟨outlines, houtlines, hids', horder'⟩ :=
        ihafter fun x hx => hlt x (by simp [hx])
      obtain ⟨n, hn⟩ : ∃ n, t.get? id = some n :=
        ⟨_, Array.getElem?_eq_getElem (hlt id List.mem_cons_self)⟩
      have hchildren : n.children = forest.map Outline.id := by
        rw [hids, childrenOf, hn]
      refine ⟨.node id n forest :: outlines, ⟨⟨hn, hchildren, hforest⟩, houtlines⟩, ?_, ?_⟩
      · simp [Outline.id, hids']
      · simp [Outline.preOrderAll, Outline.preOrder, horder, horder']

section Render

/-- In so many turns the walk takes the pieces from the top of its stack and writes the
text, whatever is below them and whatever was written before. -/
def Writes (t : SyntaxTree) (turns : Nat) (pieces : List Piece) (text : String) : Prop :=
  ∀ fuel stack out,
    t.renderFrom (turns + fuel) (pieces ++ stack) out = t.renderFrom fuel stack (out ++ text)

theorem renderFrom_nil (t : SyntaxTree) (fuel : Nat) (out : String) :
    t.renderFrom fuel [] out = out := by
  cases fuel <;> rfl

theorem writes_nil (t : SyntaxTree) : t.Writes 0 [] "" := by
  intro fuel stack out
  simp

theorem writes_text (t : SyntaxTree) (value : String) : t.Writes 1 [.text value] value := by
  intro fuel stack out
  rw [Nat.add_comm]
  rfl

theorem Writes.append {turns turns' : Nat} {pieces pieces' : List Piece} {text text' : String}
    (h : t.Writes turns pieces text) (h' : t.Writes turns' pieces' text') :
    t.Writes (turns + turns') (pieces ++ pieces') (text ++ text') := by
  intro fuel stack out
  rw [List.append_assoc, Nat.add_assoc, h, h', String.append_assoc]

theorem Writes.node {turns id : Nat} {n : Node} {text : String} (hnode : t.get? id = some n)
    (h : t.Writes turns (pieces n).2 text) :
    t.Writes (turns + 1) [.node id] ((pieces n).1 ++ text) := by
  intro fuel stack out
  have hfuel : turns + 1 + fuel = turns + fuel + 1 := by omega
  rw [hfuel, List.cons_append, List.nil_append, renderFrom, hnode]
  simp only [h fuel stack, String.append_assoc]

/-- A node is written with what is below it and, if it was expanded, its closing bracket. -/
theorem Writes.outline {turns id : Nat} {n : Node} {below : List Outline}
    (hbelow : t.Writes turns (spaced (below.map Outline.id))
      (String.intercalate " " (Outline.texts below)))
    (hnode : t.get? id = some n) (hchildren : n.children = below.map Outline.id)
    (hclosed : n.isOpen = false) :
    ∃ turns', turns' ≤ turns + 2 ∧ t.Writes turns' [.node id] (Outline.node id n below).text := by
  obtain ⟨label, kind⟩ := n
  obtain ⟨content, rfl⟩ | ⟨expansion, rfl⟩ := Node.closed_cases hclosed
  · refine ⟨1, by omega, ?_⟩
    have hall := Writes.node hnode (writes_nil t)
    rwa [String.append_empty] at hall
  · refine ⟨turns + 2, Nat.le_refl _, ?_⟩
    have hchildren : expansion.2 = below.map Outline.id := hchildren
    rw [← hchildren] at hbelow
    have hall := Writes.node hnode (hbelow.append (writes_text t ")"))
    rwa [← String.append_assoc] at hall

/-- A forest is written with single spaces between its trees. A turn goes to each node, to
the bracket that closes it and to the space after it, of which the last tree has none. -/
theorem HasOutlines.writes {outlines : List Outline} (h : t.HasOutlines outlines)
    (hclosed : ∀ id n, t.get? id = some n → n.isOpen = false) :
    ∃ turns, turns ≤ 3 * (Outline.preOrderAll outlines).length - 1 ∧
      t.Writes turns (spaced (outlines.map Outline.id))
        (String.intercalate " " (Outline.texts outlines)) := by
  induction outlines using Outline.forestInduction with
  | nil => exact ⟨0, Nat.zero_le _, writes_nil t⟩
  | cons id n below outlines ihbelow ih =>
      obtain ⟨⟨hnode, hchildren, hbelow⟩, houtlines⟩ := h
      obtain ⟨turns, hturns, hwrites⟩ := ihbelow hbelow
      obtain ⟨turns, hturns', hfirst⟩ := hwrites.outline hnode hchildren (hclosed id n hnode)
      obtain ⟨turns', hturns'', hrest⟩ := ih houtlines
      -- a space follows only if another tree does
      cases outlines with
      | nil =>
          refine ⟨turns, ?_, hfirst⟩
          simp only [Outline.preOrderAll, Outline.preOrder, List.append_nil, List.length_cons]
          omega
      | cons outline outlines =>
          obtain ⟨id', n', below'⟩ := outline
          have hall := hfirst.append ((writes_text t " ").append hrest)
          refine ⟨turns + (1 + turns'), ?_, ?_⟩
          · simp only [Outline.preOrderAll, Outline.preOrder, List.length_append,
              List.length_cons] at hturns'' ⊢
            omega
          · simp only [Outline.texts, String.intercalate_cons_cons, String.append_assoc] at hall ⊢
            exact hall

/-- The walk over a whole tree ends by itself: more fuel than `render` gives it makes no
difference. -/
theorem HasOutline.renderFrom_eq {outline : Outline} (h : t.HasOutline outline)
    (hroot : outline.id = root) (hsize : outline.preOrder.length = t.size)
    (hclosed : ∀ id n, t.get? id = some n → n.isOpen = false) (more : Nat) :
    t.renderFrom (3 * t.size + more) [.node root] "" = outline.text := by
  have hall : t.HasOutlines [outline] := ⟨h, trivial⟩
  obtain ⟨turns, hturns, hwrites⟩ := hall.writes hclosed
  simp only [Outline.preOrderAll, List.append_nil, hsize] at hturns
  simp only [Outline.texts, String.intercalate_singleton, List.map_cons, List.map_nil,
    hroot] at hwrites
  have hfuel : 3 * t.size + more = turns + (3 * t.size + more - turns) := by omega
  rw [hfuel]
  refine (hwrites _ [] "").trans ?_
  rw [renderFrom_nil, String.empty_append]

end Render

section RenderIndented

theorem lineText_eq (n : Node) : lineText n = n.label ++ Outline.remark n := by
  obtain ⟨label, kind⟩ := n
  cases kind with
  | terminal matched =>
      cases matched with
      | none => simp [lineText, Outline.remark, Node.value?, Node.rhs?]
      | some content => simp [lineText, Outline.remark, Node.value?, String.append_assoc]
  | nonterminal expansion =>
      cases expansion with
      | none => simp [lineText, Outline.remark, Node.value?, Node.rhs?]
      | some expansion =>
          obtain ⟨rhs, children⟩ := expansion
          cases rhs <;> simp [lineText, Outline.remark, Node.value?, Node.rhs?]

/-- The same of the walk that writes lines: every node takes one turn. -/
theorem HasOutlines.renderLines_eq {outlines : List Outline} (h : t.HasOutlines outlines)
    (depth fuel : Nat) (stack : List (Nat × Nat)) (out : String) :
    t.renderLines ((Outline.preOrderAll outlines).length + fuel)
        ((outlines.map Outline.id).map (·, depth) ++ stack) out =
      t.renderLines fuel stack
        (out ++ String.join ((Outline.linesAll depth outlines).map (· ++ "\n"))) := by
  induction outlines using Outline.forestInduction generalizing depth fuel stack out with
  | nil => simp [Outline.preOrderAll, Outline.linesAll]
  | cons id n below outlines ihbelow ih =>
      obtain ⟨⟨hnode, hchildren, hbelow⟩, houtlines⟩ := h
      have hfuel : (Outline.preOrderAll (.node id n below :: outlines)).length + fuel =
          (Outline.preOrderAll below).length + ((Outline.preOrderAll outlines).length + fuel) +
            1 := by
        simp only [Outline.preOrderAll, Outline.preOrder, List.length_append, List.length_cons]
        omega
      rw [hfuel, List.map_cons, List.map_cons, List.cons_append, renderLines, Outline.id, hnode]
      simp only [hchildren, ihbelow hbelow, ih houtlines, lineText_eq, Outline.linesAll,
        Outline.lines, List.map_cons, List.map_append, List.cons_append, String.join_cons,
        String.join_append, String.append_assoc]

theorem HasOutline.renderLines_eq {outline : Outline} (h : t.HasOutline outline)
    (hroot : outline.id = root) (hsize : outline.preOrder.length = t.size) (more : Nat) :
    t.renderLines (t.size + more) [(root, 0)] "" =
      String.join ((outline.lines 0).map (· ++ "\n")) := by
  have hall : t.HasOutlines [outline] := ⟨h, trivial⟩
  have hlines := hall.renderLines_eq 0 more [] ""
  simp only [Outline.preOrderAll, Outline.linesAll, List.append_nil, List.map_cons, List.map_nil,
    hroot, hsize, String.empty_append] at hlines
  rw [hlines]
  cases more <;> rfl

end RenderIndented

/-- A closed node is on the frontier exactly if it is a matched terminal: a nonterminal
without children was replaced with nothing. -/
theorem Fits.isFrontier_eq {g : Grammar} {id : Nat} {n : Node} (h : t.Fits g id n)
    (hclosed : n.isOpen = false) : n.isFrontier = n.isMatched := by
  obtain ⟨label, kind⟩ := n
  obtain ⟨content, rfl⟩ | ⟨⟨rhs, children⟩, rfl⟩ := Node.closed_cases hclosed
  · rfl
  · have hlength := congrArg List.length (h.expanded rhs rfl)
    cases children with
    | nil =>
        cases rhs with
        | nil => rfl
        | cons symbol rhs => cases hlength
    | cons child children => rfl

end SyntaxTree

namespace Parse.Sound

variable {τ : Type} {g : Grammar} {symbol : String} {order : List Nat} {p : Parse τ}

theorem closed_get? (h : p.Sound g symbol order) (hstack : p.stack.toList = []) (id : Nat)
    (n : Node) (hn : p.tree.get? id = some n) : n.isOpen = false := by
  rw [SyntaxTree.get?_eq_toList] at hn
  exact h.closed hstack (List.mem_of_getElem? hn)

/-- In a finished parse the leaves come in the order in which they were matched. -/
theorem leaves_eq (h : p.Sound g symbol order) (hstack : p.stack.toList = []) :
    p.tree.leaves = order := by
  have hfrontier := h.frontier
  rw [hstack, List.append_nil] at hfrontier
  rw [← hfrontier, SyntaxTree.leaves_eq_filter, SyntaxTree.frontier]
  refine List.filter_congr fun id _ => ?_
  rw [SyntaxTree.leafAt, SyntaxTree.onFrontier]
  cases hnode : p.tree.get? id with
  | none => rfl
  | some n =>
      rw [Option.any_some,
        (h.tree.node id n hnode).isFrontier_eq (h.closed_get? hstack id n hnode)]
      rfl

/-- The walk of a sound parse is that of an outline, which has every node once. -/
theorem outline (h : p.Sound g symbol order) :
    ∃ outline, p.tree.HasOutline outline ∧ outline.id = SyntaxTree.root ∧
      outline.preOrder = p.tree.preOrder ∧ outline.preOrder.length = p.tree.size := by
  obtain ⟨outlines, houtlines, hids, horder⟩ :=
    h.tree.walk.outlines fun id hid => h.tree.mem_preOrder.mp hid
  obtain ⟨outline, rfl, hid⟩ := List.map_eq_singleton_iff.mp hids
  rw [Outline.preOrderAll, Outline.preOrderAll, List.append_nil] at horder
  refine ⟨outline, houtlines.1, hid, horder, ?_⟩
  rw [horder, h.tree.all.length_eq, List.length_range]

end Parse.Sound

namespace Grammar

variable {τ : Type} [TokenStream τ] {g : Grammar} {preferences : SyntaxPreferences}
  {bound : Nat} {symbol : String} {stream : τ} {run : ParseRun τ} {tree : SyntaxTree}
  {trailing : Option Token}

/-- The tree of a parse that succeeds has one outline. Its walk comes to the nodes in the
recursive order, its leaves are the nodes that the steps of the parse have matched, in the
order of the steps, and its texts are the recursive ones. No walk is cut short by its
fuel: with more of it, it gives the same. -/
theorem parseAs?_traversals (h : g.parseAs? preferences bound symbol stream = some run)
    (hok : run.result = .ok ⟨tree, trailing⟩) :
    ∃ outline : Outline, tree.HasOutline outline ∧ outline.id = SyntaxTree.root ∧
      (∀ other, tree.HasOutline other → other.id = SyntaxTree.root → other = outline) ∧
      tree.preOrder = outline.preOrder ∧
      (∃ n p last,
        (Parse.start g symbol stream).afterSteps g preferences n = some (p, tree.leaves) ∧
        p.step g preferences = .stopped (.ok ⟨tree, trailing⟩) last) ∧
      tree.render = outline.text ∧
      tree.renderIndented = String.join ((outline.lines 0).map (· ++ "\n")) ∧
      ∀ more, tree.visit (tree.size + more) [SyntaxTree.root] [] = tree.preOrder ∧
        tree.renderFrom (3 * tree.size + more) [.node SyntaxTree.root] "" = tree.render ∧
        tree.renderLines (tree.size + more) [(SyntaxTree.root, 0)] "" = tree.renderIndented := by
  obtain ⟨last, hrun, -⟩ := run_of_parseAs? h
  rw [hok] at hrun
  obtain ⟨n, p, order, hsteps, hstop⟩ := Parse.afterSteps_of_run hrun
  obtain ⟨hstack, htree, -⟩ := Parse.step_stopped_ok hstop
  have hsound := (Parse.sound_start g symbol stream).afterSteps hsteps
  rw [List.nil_append] at hsound
  obtain rfl : tree = p.tree := htree
  obtain ⟨outline, houtline, hroot, horder, hsize⟩ := hsound.outline
  have hrender := houtline.renderFrom_eq hroot hsize (hsound.closed_get? hstack)
  have hlines := houtline.renderLines_eq hroot hsize
  refine ⟨outline, houtline, hroot, ?_, horder.symm, ⟨n, p, last, ?_, hstop⟩, hrender 0,
    hlines 0, fun more => ⟨?_, (hrender more).trans (hrender 0).symm,
      (hlines more).trans (hlines 0).symm⟩⟩
  · intro other hother hother'
    have hall : p.tree.HasOutlines [outline] := ⟨houtline, trivial⟩
    have hothers : p.tree.HasOutlines [other] := ⟨hother, trivial⟩
    have hsame : [other] = [outline] := hall.unique hothers (by simp [hroot, hother'])
    exact (List.cons.inj hsame).1
  · rw [hsteps, hsound.leaves_eq hstack]
  · have hvisit := SyntaxTree.visit_all hsound.tree.walk more
    rwa [← horder, hsize, horder] at hvisit

theorem parseAs?_traversals_demo :
    ∃ run tree trailing, Demo.grammar.parseAs? {} 12 Demo.startSymbol
        (⟨[⟨"ab", Demo.evenClass, .origin⟩, ⟨" ", triviaClass, .origin⟩,
          ⟨"&&", Demo.andClass, .origin⟩]⟩ : TokenQueue) = some run ∧
      run.result = .ok ⟨tree, trailing⟩ ∧
      tree.render = "#S(EVEN=\"ab\" #S() &&=\"&&\" #S())" ∧
      ∃ outline : Outline, tree.HasOutline outline ∧ outline.id = SyntaxTree.root ∧
        tree.preOrder = outline.preOrder ∧ tree.render = outline.text ∧
        tree.renderIndented = String.join ((outline.lines 0).map (· ++ "\n")) := by
  have hends : (Demo.grammar.parseAs? {} 12 Demo.startSymbol
      (⟨[⟨"ab", Demo.evenClass, .origin⟩, ⟨" ", triviaClass, .origin⟩,
        ⟨"&&", Demo.andClass, .origin⟩]⟩ : TokenQueue)).any (fun run =>
          match run.result with
          | .ok outcome => outcome.tree.render == "#S(EVEN=\"ab\" #S() &&=\"&&\" #S())"
          | .error _ => false) = true := by
    decide +kernel
  obtain ⟨run, hrun, hresult⟩ := (Option.any_eq_true _ _).mp hends
  cases hok : run.result with
  | error e => simp [hok] at hresult
  | ok outcome =>
      obtain ⟨tree, trailing⟩ := outcome
      have htext : tree.render = "#S(EVEN=\"ab\" #S() &&=\"&&\" #S())" := by
        simpa [hok] using hresult
      obtain ⟨outline, houtline, hroot, -, horder, -, hrender, hlines, -⟩ :=
        parseAs?_traversals hrun hok
      exact ⟨run, tree, trailing, hrun, hok, htext, outline, houtline, hroot, horder, hrender,
        hlines⟩

end Grammar

end Lookahead
