import Lookahead.Proofs.DepthFirst
import Lookahead.Proofs.ParserRun
import Mathlib.Data.List.Nodup

/-!
The array of a tree that grows. Only one thing ever happens to it: a node that was
neither matched nor expanded is closed, and if it was expanded its children come to
the end of the array. All that holds of the tree at any time follows from what that
does to the nodes, to the children lists and to the depth-first walk.
-/
namespace Lookahead

namespace Node

/-- Neither matched nor expanded. -/
def isOpen (n : Node) : Bool :=
  match n.kind with
  | .terminal none | .nonterminal none => true
  | _ => false

def isExpanded (n : Node) : Bool := n.rhs?.isSome

def isMatched (n : Node) : Bool := n.value?.isSome

/-- A node without children that was not replaced with nothing. -/
def isFrontier (n : Node) : Bool := n.children.isEmpty && !n.isEpsilon

section Fresh

variable (label : String) (isNonterminal : Bool)

@[simp] theorem isOpen_fresh : (fresh label isNonterminal).isOpen = true := by
  cases isNonterminal <;> rfl

@[simp] theorem isTerminal_fresh : (fresh label isNonterminal).isTerminal = !isNonterminal := by
  cases isNonterminal <;> rfl

@[simp] theorem rhs?_fresh : (fresh label isNonterminal).rhs? = none := by
  cases isNonterminal <;> rfl

@[simp] theorem children_fresh : (fresh label isNonterminal).children = [] := by
  cases isNonterminal <;> rfl

@[simp] theorem isMatched_fresh : (fresh label isNonterminal).isMatched = false := by
  cases isNonterminal <;> rfl

@[simp] theorem isExpanded_fresh : (fresh label isNonterminal).isExpanded = false := by
  simp [isExpanded]

@[simp] theorem isEpsilon_fresh : (fresh label isNonterminal).isEpsilon = false := by
  simp [isEpsilon]

@[simp] theorem isFrontier_fresh : (fresh label isNonterminal).isFrontier = true := by
  simp [isFrontier]

end Fresh

theorem eq_fresh_of_isOpen {n : Node} (h : n.isOpen = true) :
    n = fresh n.label (!n.isTerminal) := by
  obtain ⟨label, kind⟩ := n
  cases kind with
  | terminal matched =>
      cases matched with
      | none => rfl
      | some content => cases h
  | nonterminal expansion =>
      cases expansion with
      | none => rfl
      | some expansion => cases h

theorem isMatched_eq_not_isExpanded {n : Node} (h : n.isOpen = false) :
    n.isMatched = !n.isExpanded := by
  obtain ⟨label, kind⟩ := n
  cases kind with
  | terminal matched =>
      cases matched with
      | none => cases h
      | some content => rfl
  | nonterminal expansion =>
      cases expansion with
      | none => cases h
      | some expansion => rfl

/-- What becomes of an open node: a nonterminal is replaced with symbols whose nodes
stand in one block of the array, or a terminal is matched. -/
inductive Closes (first : Nat) : Node → List String → Node → Prop where
  | expanded (label : String) (rhs : List String) :
      Closes first (fresh label true) rhs
        ⟨label, .nonterminal (some (rhs, List.range' first rhs.length))⟩
  | matched (label : String) (content : String × Span) :
      Closes first (fresh label false) [] ⟨label, .terminal (some content)⟩

section Closes

variable {first : Nat} {n n' : Node} {rhs : List String} (h : n.Closes first rhs n')
include h

theorem Closes.eq_of_fresh {β : Type} {f : Node → β} {b : β}
    (hf : ∀ label isNonterminal, f (fresh label isNonterminal) = b) : f n = b := by
  cases h <;> exact hf _ _

theorem Closes.not_isOpen : n'.isOpen = false := by cases h <;> rfl

theorem Closes.label_eq : n'.label = n.label := by cases h <;> rfl

theorem Closes.isTerminal_eq : n'.isTerminal = n.isTerminal := by cases h <;> rfl

theorem Closes.children_eq : n'.children = List.range' first rhs.length := by cases h <;> rfl

theorem Closes.isFrontier_eq : n'.isFrontier = n'.isMatched := by
  cases h with
  | expanded label rhs => cases rhs <;> rfl
  | matched label content => rfl

end Closes

end Node

namespace SyntaxTree

structure Closes (g : Grammar) (t : SyntaxTree) (id : Nat) (n : Node) (rhs : List String)
    (n' : Node) (t' : SyntaxTree) : Prop where
  node : n.Closes t.size rhs n'
  nodes : ∃ before after, id = before.length ∧ t.nodes.toList = before ++ n :: after ∧
    t'.nodes.toList = before ++ n' :: (after ++ Parse.waiting g rhs)

theorem get?_eq_toList (t : SyntaxTree) (id : Nat) : t.get? id = t.nodes.toList[id]? := by
  simp [get?]

theorem length_toList (t : SyntaxTree) : t.nodes.toList.length = t.size := by
  simp [size]

theorem lt_size_of_get? {t : SyntaxTree} {id : Nat} {n : Node} (h : t.get? id = some n) :
    id < t.size := by
  rw [get?_eq_toList, List.getElem?_eq_some_iff] at h
  rw [← length_toList]
  exact h.1

theorem get?_eq_none {t : SyntaxTree} {id : Nat} (h : t.size ≤ id) : t.get? id = none := by
  rw [get?_eq_toList, List.getElem?_eq_none]
  rwa [length_toList]

theorem exists_split {t : SyntaxTree} {id : Nat} {n : Node} (h : t.get? id = some n) :
    ∃ before after, id = before.length ∧ t.nodes.toList = before ++ n :: after := by
  rw [get?_eq_toList, List.getElem?_eq_some_iff] at h
  obtain ⟨hlt, rfl⟩ := h
  refine ⟨t.nodes.toList.take id, t.nodes.toList.drop (id + 1), ?_, ?_⟩
  · rw [List.length_take, Nat.min_eq_left (Nat.le_of_lt hlt)]
  · rw [List.getElem_cons_drop, List.take_append_drop]

theorem closes_setExpansion (g : Grammar) {t : SyntaxTree} {id : Nat} {label : String}
    (h : t.get? id = some (.fresh label true)) (rhs : List String) :
    let children := List.range' t.size rhs.length
    t.Closes g id (.fresh label true) rhs ⟨label, .nonterminal (some (rhs, children))⟩
      ((t.append (Parse.waiting g rhs)).setExpansion id rhs children) := by
  obtain ⟨before, after, rfl, hsplit⟩ := exists_split h
  refine ⟨.expanded label rhs, before, after, rfl, hsplit, ?_⟩
  have happended : (t.append (Parse.waiting g rhs)).nodes.toList =
      before ++ .fresh label true :: (after ++ Parse.waiting g rhs) := by
    rw [toList_append, hsplit, List.append_assoc, List.cons_append]
  exact toList_modify happended _

theorem closes_setMatched (g : Grammar) {t : SyntaxTree} {id : Nat} {label : String}
    (h : t.get? id = some (.fresh label false)) (value : String) (span : Span) :
    t.Closes g id (.fresh label false) [] ⟨label, .terminal (some (value, span))⟩
      (t.setMatched id value span) := by
  obtain ⟨before, after, rfl, hsplit⟩ := exists_split h
  refine ⟨.matched label (value, span), before, after, rfl, hsplit, ?_⟩
  have hmodify := toList_modify hsplit (·.setMatched value span)
  rwa [← List.append_nil after] at hmodify

section Closes

variable {g : Grammar} {t t' : SyntaxTree} {id x : Nat} {n n' : Node} {rhs : List String}
  (h : t.Closes g id n rhs n' t')
include h

theorem Closes.size_eq : t'.size = t.size + rhs.length := by
  obtain ⟨before, after, rfl, hbefore, hafter⟩ := h.nodes
  rw [← length_toList, ← length_toList, hbefore, hafter]
  simp only [Parse.waiting, List.length_append, List.length_cons, List.length_map]
  omega

theorem Closes.get?_before : t.get? id = some n := by
  obtain ⟨before, after, rfl, hbefore, -⟩ := h.nodes
  exact get?_of_toList hbefore

theorem Closes.get?_self : t'.get? id = some n' := by
  obtain ⟨before, after, rfl, -, hafter⟩ := h.nodes
  exact get?_of_toList hafter

theorem Closes.get?_of_ne (hx : x ≠ id) :
    t'.get? x = (t.nodes.toList ++ Parse.waiting g rhs)[x]? := by
  obtain ⟨before, after, rfl, hbefore, hafter⟩ := h.nodes
  rw [get?_eq_toList, hafter, hbefore, List.append_assoc, List.cons_append]
  rcases Nat.lt_or_gt_of_ne hx with hlt | hgt
  · rw [List.getElem?_append_left hlt, List.getElem?_append_left hlt]
  · obtain ⟨i, rfl⟩ := Nat.exists_eq_add_of_lt hgt
    rw [List.getElem?_append_right (by omega), List.getElem?_append_right (by omega)]
    have hsub : before.length + i + 1 - before.length = i + 1 := by omega
    rw [hsub, List.getElem?_cons_succ, List.getElem?_cons_succ]

theorem Closes.get?_old (hx : x ≠ id) (hlt : x < t.size) : t'.get? x = t.get? x := by
  rw [h.get?_of_ne hx, get?_eq_toList, List.getElem?_append_left (by rwa [length_toList])]

theorem Closes.get?_new (hle : t.size ≤ x) :
    t'.get? x = (rhs[x - t.size]?).map fun symbol => .fresh symbol (g.isNonterminal symbol) := by
  have hlt := lt_size_of_get? h.get?_before
  rw [h.get?_of_ne (by omega), List.getElem?_append_right (by rwa [length_toList]),
    length_toList, Parse.waiting, List.getElem?_map]

theorem Closes.childrenOf_before : t.childrenOf id = [] := by
  rw [childrenOf, h.get?_before]
  exact h.node.eq_of_fresh Node.children_fresh

theorem Closes.childrenOf_self : t'.childrenOf id = List.range' t.size rhs.length := by
  rw [childrenOf, h.get?_self]
  exact h.node.children_eq

theorem Closes.childrenOf_new (hle : t.size ≤ x) : t'.childrenOf x = [] := by
  rw [childrenOf, h.get?_new hle]
  cases rhs[x - t.size]? with
  | none => rfl
  | some symbol => exact Node.children_fresh _ _

theorem Closes.childrenOf_of_ne (hx : x ≠ id) : t'.childrenOf x = t.childrenOf x := by
  by_cases hlt : x < t.size
  · rw [childrenOf, childrenOf, h.get?_old hx hlt]
  · rw [h.childrenOf_new (Nat.le_of_not_lt hlt), childrenOf, get?_eq_none (Nat.le_of_not_lt hlt)]

theorem Closes.any_isOpen_iff (x : Nat) : (t'.get? x).any Node.isOpen = true ↔
    x ∈ n'.children ∨ x ≠ id ∧ (t.get? x).any Node.isOpen = true := by
  have hlt := lt_size_of_get? h.get?_before
  rw [h.node.children_eq, List.mem_range'_1]
  by_cases hx : x = id
  · subst hx
    rw [h.get?_self, Option.any_some, h.node.not_isOpen]
    constructor
    · intro hopen
      cases hopen
    · rintro (hchild | ⟨hne, -⟩)
      · omega
      · exact absurd rfl hne
  · by_cases hold : x < t.size
    · rw [h.get?_old hx hold]
      constructor
      · intro hopen
        exact Or.inr ⟨hx, hopen⟩
      · rintro (hchild | ⟨-, hopen⟩)
        · omega
        · exact hopen
    · have hle := Nat.le_of_not_lt hold
      rw [h.get?_new hle, get?_eq_none hle]
      constructor
      · intro hopen
        obtain ⟨m, hm, -⟩ := (Option.any_eq_true _ _).mp hopen
        obtain ⟨symbol, hsymbol, -⟩ := Option.map_eq_some_iff.mp hm
        have hi := (List.getElem?_eq_some_iff.mp hsymbol).1
        exact Or.inl ⟨hle, by omega⟩
      · rintro (hchild | ⟨-, hopen⟩)
        · have hi : x - t.size < rhs.length := by omega
          rw [List.getElem?_eq_getElem hi]
          exact Node.isOpen_fresh _ _
        · cases hopen

theorem Closes.labels_eq :
    t'.nodes.toList.map Node.label = t.nodes.toList.map Node.label ++ rhs := by
  obtain ⟨before, after, rfl, hbefore, hafter⟩ := h.nodes
  rw [hbefore, hafter]
  simp [Parse.waiting, h.node.label_eq, Function.comp_def]

theorem Closes.countP_eq {P : Node → Bool}
    (hP : ∀ label isNonterminal, P (.fresh label isNonterminal) = false) :
    t'.nodes.toList.countP P = t.nodes.toList.countP P + (P n').toNat := by
  obtain ⟨before, after, rfl, hbefore, hafter⟩ := h.nodes
  have hold : P n = false := h.node.eq_of_fresh hP
  have hnew : (Parse.waiting g rhs).countP P = 0 := by
    simp [Parse.waiting, Function.comp_def, hP]
  rw [hbefore, hafter, List.countP_append, List.countP_append, List.countP_cons,
    List.countP_cons, List.countP_append, hnew, hold]
  cases P n' with
  | false => simp
  | true => simp [Nat.add_assoc]

theorem Closes.children_perm :
    (t'.nodes.toList.flatMap Node.children).Perm
      (t.nodes.toList.flatMap Node.children ++ List.range' t.size rhs.length) := by
  obtain ⟨before, after, rfl, hbefore, hafter⟩ := h.nodes
  have hold : n.children = [] := h.node.eq_of_fresh Node.children_fresh
  have hnew : (Parse.waiting g rhs).flatMap Node.children = [] := by
    simp [Parse.waiting]
  rw [hbefore, hafter]
  simp only [List.flatMap_append, List.flatMap_cons, hold, hnew, h.node.children_eq,
    List.nil_append, List.append_nil, List.append_assoc]
  exact List.perm_append_comm.append_left _

end Closes

/-- What holds of each node. A nonterminal that was replaced has as its children nodes
of the symbols that it was replaced with, one for each. -/
structure Fits (g : Grammar) (t : SyntaxTree) (id : Nat) (n : Node) : Prop where
  kind : n.isTerminal = !g.isNonterminal n.label
  below : ∀ child ∈ n.children, id < child
  expanded : ∀ rhs, n.rhs? = some rhs →
    n.children.map ((t.nodes.toList.map Node.label)[·]?) = rhs.map some
  childless : n.rhs? = none → n.children = []

def onFrontier (t : SyntaxTree) (id : Nat) : Bool := (t.get? id).any Node.isFrontier

/-- The leaves from left to right, without the nodes that were replaced with nothing. -/
def frontier (t : SyntaxTree) : List Nat := t.preOrder.filter t.onFrontier

/-- The root comes first, and every other node is in the children lists exactly once. -/
structure WellFormed (g : Grammar) (symbol : String) (t : SyntaxTree) : Prop where
  root : (t.get? root).map (·.label) = some symbol
  children : (t.nodes.toList.flatMap Node.children).Perm (List.range' 1 (t.size - 1))
  node : ∀ id n, t.get? id = some n → t.Fits g id n
  walk : t.DepthFirst [SyntaxTree.root] t.preOrder
  all : t.preOrder.Perm (List.range t.size)

section WellFormed

variable {g : Grammar} {symbol : String} {t t' : SyntaxTree} {id : Nat} {n n' : Node}
  {rhs : List String}

theorem Fits.fresh (g : Grammar) (t : SyntaxTree) (id : Nat) (label : String) :
    t.Fits g id (.fresh label (g.isNonterminal label)) := by
  constructor <;> simp

theorem Fits.extend {x : Nat} {m : Node} (hfits : t.Fits g x m) (h : t.Closes g id n rhs n' t') :
    t'.Fits g x m := by
  refine ⟨hfits.kind, hfits.below, ?_, hfits.childless⟩
  intro r hr
  rw [h.labels_eq]
  exact Parse.Pending.extend (hfits.expanded r hr) rhs

theorem Fits.closes (hfits : t.Fits g id n) (h : t.Closes g id n rhs n' t') : t'.Fits g id n' := by
  have hlt := lt_size_of_get? h.get?_before
  constructor
  · rw [h.node.isTerminal_eq, h.node.label_eq]
    exact hfits.kind
  · intro child hchild
    rw [h.node.children_eq, List.mem_range'_1] at hchild
    omega
  · intro r hr
    rw [h.node.children_eq, h.labels_eq]
    have hrhs : r = rhs := by
      cases h.node with
      | expanded label rhs => exact (Option.some.inj hr).symm
      | matched label content => cases hr
    have hsize : (t.nodes.toList.map Node.label).length = t.size := by
      rw [List.length_map, length_toList]
    rw [hrhs, ← hsize]
    exact Parse.pending_new _ rhs
  · intro hnone
    cases h.node with
    | expanded label rhs => cases hnone
    | matched label content => rfl

theorem WellFormed.mem_preOrder (hwf : t.WellFormed g symbol) {x : Nat} :
    x ∈ t.preOrder ↔ x < t.size := by
  rw [hwf.all.mem_iff, List.mem_range]

theorem WellFormed.nodup_preOrder (hwf : t.WellFormed g symbol) : t.preOrder.Nodup :=
  hwf.all.nodup_iff.mpr List.nodup_range

/-- In the walk the children come right after the node that got them. -/
theorem WellFormed.preOrder_closes (hwf : t.WellFormed g symbol)
    (h : t.Closes g id n rhs n' t') :
    ∃ front back, t.preOrder = front ++ id :: back ∧ id ∉ front ∧ id ∉ back ∧
      t'.preOrder = front ++ id :: (List.range' t.size rhs.length ++ back) ∧
      t'.DepthFirst [SyntaxTree.root] t'.preOrder ∧
      t'.preOrder.Perm (List.range t'.size) := by
  have hmem : id ∈ t.preOrder := hwf.mem_preOrder.mpr (lt_size_of_get? h.get?_before)
  obtain ⟨front, back, hsplit⟩ := List.append_of_mem hmem
  have hnodup := hwf.nodup_preOrder
  rw [hsplit, List.nodup_middle, List.nodup_cons, List.mem_append, not_or] at hnodup
  obtain ⟨⟨hfront, hback⟩, -⟩ := hnodup
  have hnew : ∀ child ∈ t'.childrenOf id, t'.childrenOf child = [] := by
    intro child hchild
    rw [h.childrenOf_self, List.mem_range'_1] at hchild
    exact h.childrenOf_new hchild.1
  have hwalk := hwf.walk.insertAfter h.childrenOf_before (fun x hx => h.childrenOf_of_ne hx) hnew
  rw [hsplit, insertAfter_split hfront hback, h.childrenOf_self] at hwalk
  have hperm : (front ++ id :: (List.range' t.size rhs.length ++ back)).Perm
      (List.range t'.size) := by
    have hall := hwf.all.append_right (List.range' t.size rhs.length)
    rw [hsplit, List.append_assoc, List.cons_append] at hall
    rw [h.size_eq, List.range_eq_range', ← List.range'_append_1, Nat.zero_add,
      ← List.range_eq_range']
    exact ((List.perm_append_comm.cons id).append_left front).trans hall
  have horder := preOrder_of_depthFirst hwalk (by rw [hperm.length_eq, List.length_range])
  rw [← horder] at hwalk hperm
  exact ⟨front, back, hsplit, hfront, hback, horder, hwalk, hperm⟩

theorem WellFormed.closes (hwf : t.WellFormed g symbol) (h : t.Closes g id n rhs n' t') :
    t'.WellFormed g symbol := by
  have hlt := lt_size_of_get? h.get?_before
  obtain ⟨-, -, -, -, -, -, hwalk, hall⟩ := hwf.preOrder_closes h
  refine ⟨?_, ?_, ?_, hwalk, hall⟩
  · by_cases hroot : SyntaxTree.root = id
    · have hlabel := hwf.root
      rw [hroot, h.get?_before] at hlabel
      rw [hroot, h.get?_self, ← hlabel]
      exact congrArg some h.node.label_eq
    · rw [h.get?_old hroot (Nat.zero_lt_of_lt hlt)]
      exact hwf.root
  · refine h.children_perm.trans ((hwf.children.append_right _).trans ?_)
    have hsizes : t'.size - 1 = t.size - 1 + rhs.length := by
      rw [h.size_eq]
      omega
    have hnext : t.size = 1 + (t.size - 1) := by omega
    rw [hsizes, ← List.range'_append_1, ← hnext]
  · intro x m hm
    by_cases hx : x = id
    · subst hx
      rw [h.get?_self] at hm
      cases hm
      exact (hwf.node x n h.get?_before).closes h
    · by_cases hold : x < t.size
      · rw [h.get?_old hx hold] at hm
        exact (hwf.node x m hm).extend h
      · rw [h.get?_new (Nat.le_of_not_lt hold), Option.map_eq_some_iff] at hm
        obtain ⟨label, -, rfl⟩ := hm
        exact Fits.fresh g t' x label

/-- The terminals that are matched in the second tree but not in the first. -/
def newlyMatched (t t' : SyntaxTree) : List Nat :=
  (List.range t'.size).filter fun id =>
    (t'.get? id).any Node.isMatched && !(t.get? id).any Node.isMatched

theorem Closes.any_isMatched (h : t.Closes g id n rhs n' t') {x : Nat}
    (hx : (t.get? x).any Node.isMatched = true) : (t'.get? x).any Node.isMatched = true := by
  obtain ⟨m, hm, hmatched⟩ := (Option.any_eq_true _ _).mp hx
  have hne : x ≠ id := by
    rintro rfl
    rw [h.get?_before] at hm
    cases hm
    have hnot : n.isMatched = false := h.node.eq_of_fresh Node.isMatched_fresh
    rw [hnot] at hmatched
    cases hmatched
  rwa [h.get?_old hne (lt_size_of_get? hm)]

theorem mem_newlyMatched {x : Nat} : x ∈ newlyMatched t t' ↔
    (t'.get? x).any Node.isMatched = true ∧ ¬ (t.get? x).any Node.isMatched = true := by
  rw [newlyMatched, List.mem_filter, List.mem_range, Bool.and_eq_true, Bool.not_eq_true',
    Bool.not_eq_true]
  refine ⟨And.right, fun h => ⟨?_, h⟩⟩
  obtain ⟨m, hm, -⟩ := (Option.any_eq_true _ _).mp h.1
  exact lt_size_of_get? hm

theorem Closes.newlyMatched_eq (h : t.Closes g id n rhs n' t') :
    newlyMatched t t' = if n'.isMatched then [id] else [] := by
  have hlt := lt_size_of_get? h.get?_before
  have honly : newlyMatched t t' =
      (List.range t'.size).filter fun x => x == id && n'.isMatched := by
    refine List.filter_congr fun x _ => ?_
    by_cases hx : x = id
    · subst hx
      have hnot : n.isMatched = false := h.node.eq_of_fresh Node.isMatched_fresh
      rw [h.get?_self, h.get?_before]
      simp [hnot]
    · by_cases hold : x < t.size
      · rw [h.get?_old hx hold]
        simp [hx]
      · rw [h.get?_new (Nat.le_of_not_lt hold)]
        cases rhs[x - t.size]? <;> simp [hx]
  rw [honly]
  cases n'.isMatched with
  | false => simp
  | true =>
      have hmem : id ∈ List.range t'.size := by
        rw [List.mem_range, h.size_eq]
        omega
      simp only [Bool.and_true, if_true]
      rw [List.filter_beq, List.count_eq_one_of_mem List.nodup_range hmem]
      rfl

theorem Closes.onFrontier_before (h : t.Closes g id n rhs n' t') : t.onFrontier id = true := by
  rw [onFrontier, h.get?_before]
  exact h.node.eq_of_fresh Node.isFrontier_fresh

theorem Closes.onFrontier_self (h : t.Closes g id n rhs n' t') :
    t'.onFrontier id = n'.isMatched := by
  rw [onFrontier, h.get?_self]
  exact h.node.isFrontier_eq

theorem Closes.filter_children (h : t.Closes g id n rhs n' t') :
    (List.range' t.size rhs.length).filter t'.onFrontier = List.range' t.size rhs.length := by
  rw [List.filter_eq_self]
  intro x hx
  rw [List.mem_range'_1] at hx
  have hi : x - t.size < rhs.length := by omega
  rw [onFrontier, h.get?_new hx.1, List.getElem?_eq_getElem hi]
  simp

theorem WellFormed.filter_others (hwf : t.WellFormed g symbol) (h : t.Closes g id n rhs n' t')
    {part : List Nat} (hpart : part ⊆ t.preOrder) (hid : id ∉ part) :
    part.filter t'.onFrontier = part.filter t.onFrontier := by
  refine List.filter_congr fun x hx => ?_
  have hne : x ≠ id := fun heq => hid (heq ▸ hx)
  rw [onFrontier, onFrontier, h.get?_old hne (hwf.mem_preOrder.mp (hpart hx))]

/-- A node that is matched stays on the frontier, and one that is expanded gives way to
its children. -/
theorem WellFormed.frontier_closes (hwf : t.WellFormed g symbol)
    (h : t.Closes g id n rhs n' t') {order stack : List Nat}
    (hfrontier : t.frontier = order ++ id :: stack) :
    t'.frontier = order ++ newlyMatched t t' ++ (n'.children ++ stack) := by
  obtain ⟨front, back, hsplit, hfront, hback, hsplit', -, -⟩ := hwf.preOrder_closes h
  have hsides : front.filter t.onFrontier = order ∧ id = id ∧
      back.filter t.onFrontier = stack := by
    rw [frontier, hsplit, List.filter_append, List.filter_cons_of_pos h.onFrontier_before]
      at hfrontier
    refine (List.append_cons_inj_of_notMem ?_ ?_).mp hfrontier
    · exact fun hmem => hfront (List.mem_of_mem_filter hmem)
    · exact fun hmem => hback (List.mem_of_mem_filter hmem)
  rw [frontier, hsplit', List.filter_append, List.filter_cons, List.filter_append,
    hwf.filter_others h (by simp [hsplit]) hfront, hwf.filter_others h (by simp [hsplit]) hback,
    h.filter_children, hsides.1, hsides.2.2, h.onFrontier_self, h.newlyMatched_eq,
    h.node.children_eq]
  cases n'.isMatched <;> simp

end WellFormed

end SyntaxTree

end Lookahead
