/-!
Lists that know their length.
-/
namespace Lookahead

structure SizedList (α : Type) where
  toList : List α
  size : Nat
  size_eq : size = toList.length

namespace SizedList

variable {α : Type}

def nil : SizedList α := ⟨[], 0, rfl⟩

def cons (a : α) (l : SizedList α) : SizedList α :=
  ⟨a :: l.toList, l.size + 1, by simp [l.size_eq]⟩

/-- The given elements, then those of the list. -/
def prepend (front : List α) (l : SizedList α) : SizedList α :=
  ⟨front ++ l.toList, front.length + l.size, by simp [l.size_eq]⟩

def uncons? : SizedList α → Option (α × SizedList α)
  | ⟨[], _, _⟩ => none
  | ⟨a :: rest, size, size_eq⟩ => some (a, ⟨rest, size - 1, by simp [size_eq]⟩)

end SizedList

end Lookahead
