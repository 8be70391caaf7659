import Lookahead.Tree.Basic

/-!
The walk through a tree. `DepthFirst` says recursively in which order the nodes come,
each before its children and the first child first. The iterative walk follows that
order, and to hang new leaves below one leaf puts them right after it.
-/
namespace Lookahead

namespace SyntaxTree

inductive DepthFirst (t : SyntaxTree) : List Nat → List Nat → Prop where
  | nil : DepthFirst t [] []
  | cons {id : Nat} {ids below after : List Nat} (hbelow : DepthFirst t (t.childrenOf id) below)
      (hafter : DepthFirst t ids after) : DepthFirst t (id :: ids) (id :: (below ++ after))

variable {t t' : SyntaxTree} {ids order : List Nat}

theorem depthFirst_leaves (h : ∀ id ∈ ids, t.childrenOf id = []) : t.DepthFirst ids ids := by
  induction ids with
  | nil => exact .nil
  | cons id ids ih =>
      have hbelow : t.DepthFirst (t.childrenOf id) [] := by
        rw [h id List.mem_cons_self]
        exact .nil
      exact .cons hbelow (ih fun x hx => h x (List.mem_cons_of_mem id hx))

theorem visit_depthFirst (h : t.DepthFirst ids order) (fuel : Nat) (stack visited : List Nat) :
    t.visit (order.length + fuel) (ids ++ stack) visited =
      t.visit fuel stack (order.reverse ++ visited) := by
  induction h generalizing fuel stack visited with
  | nil => simp
  | @cons id ids below after hbelow hafter ihbelow ihafter =>
      have hfuel : (id :: (below ++ after)).length + fuel =
          below.length + (after.length + fuel) + 1 := by
        simp
        omega
      rw [hfuel, List.cons_append, visit, ihbelow, ihafter]
      simp

theorem visit_all (h : t.DepthFirst ids order) (fuel : Nat) :
    t.visit (order.length + fuel) ids [] = order := by
  have hvisit := visit_depthFirst h fuel [] []
  rw [List.append_nil] at hvisit
  rw [hvisit]
  cases fuel <;> simp [visit]

theorem preOrder_of_depthFirst (h : t.DepthFirst [root] order) (hsize : order.length = t.size) :
    t.preOrder = order := by
  have hvisit := visit_all h 0
  rwa [hsize] at hvisit

/-- The order in which new nodes come right after a node. -/
def insertAfter (id : Nat) (new : List Nat) (order : List Nat) : List Nat :=
  order.flatMap fun x => x :: if x = id then new else []

theorem insertAfter_append (id : Nat) (new front back : List Nat) :
    insertAfter id new (front ++ back) = insertAfter id new front ++ insertAfter id new back :=
  List.flatMap_append

theorem insertAfter_self (id : Nat) (new order : List Nat) :
    insertAfter id new (id :: order) = id :: (new ++ insertAfter id new order) := by
  simp [insertAfter]

theorem insertAfter_cons {id x : Nat} (h : x ≠ id) (new order : List Nat) :
    insertAfter id new (x :: order) = x :: insertAfter id new order := by
  simp [insertAfter, h]

theorem insertAfter_of_notMem {id : Nat} (h : id ∉ order) (new : List Nat) :
    insertAfter id new order = order := by
  induction order with
  | nil => rfl
  | cons x order ih =>
      rw [List.mem_cons, not_or] at h
      rw [insertAfter_cons (Ne.symm h.1), ih h.2]

theorem insertAfter_split {id : Nat} {front back : List Nat} (hfront : id ∉ front)
    (hback : id ∉ back) (new : List Nat) :
    insertAfter id new (front ++ id :: back) = front ++ id :: (new ++ back) := by
  rw [insertAfter_append, insertAfter_self, insertAfter_of_notMem hfront,
    insertAfter_of_notMem hback]

theorem DepthFirst.insertAfter {id : Nat} (h : t.DepthFirst ids order)
    (hleaf : t.childrenOf id = []) (hother : ∀ x, x ≠ id → t'.childrenOf x = t.childrenOf x)
    (hnew : ∀ child ∈ t'.childrenOf id, t'.childrenOf child = []) :
    t'.DepthFirst ids (insertAfter id (t'.childrenOf id) order) := by
  induction h with
  | nil => exact .nil
  | @cons x ids below after hbelow hafter ihbelow ihafter =>
      by_cases hx : x = id
      · subst hx
        rw [hleaf] at hbelow
        cases hbelow
        rw [insertAfter_self]
        exact .cons (depthFirst_leaves hnew) ihafter
      · rw [insertAfter_cons hx, insertAfter_append]
        rw [← hother x hx] at ihbelow
        exact .cons ihbelow ihafter

end SyntaxTree

end Lookahead
