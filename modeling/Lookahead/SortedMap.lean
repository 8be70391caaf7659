/-!
Finite maps as lists of entries with strictly increasing keys. Inserting at a
key that is present replaces its value, so the entries depend only on which
value each key was given last.
-/
namespace Lookahead

structure SortedMap (κ ν : Type) where
  entries : List (κ × ν) := []

namespace SortedMap

variable {κ ν : Type} [Ord κ]

def insertEntry (k : κ) (v : ν) : List (κ × ν) → List (κ × ν)
  | [] => [(k, v)]
  | (k', v') :: rest =>
      match compare k k' with
      | .lt => (k, v) :: (k', v') :: rest
      | .eq => (k, v) :: rest
      | .gt => (k', v') :: insertEntry k v rest

def insert (m : SortedMap κ ν) (k : κ) (v : ν) : SortedMap κ ν :=
  ⟨insertEntry k v m.entries⟩

def get? (m : SortedMap κ ν) (k : κ) : Option ν :=
  (m.entries.find? fun entry => compare k entry.1 == .eq).map (·.2)

def empty : SortedMap κ ν := ⟨[]⟩

def ofList (pairs : List (κ × ν)) : SortedMap κ ν :=
  pairs.foldl (fun m pair => m.insert pair.1 pair.2) ⟨[]⟩

def size (m : SortedMap κ ν) : Nat := m.entries.length

def isEmpty (m : SortedMap κ ν) : Bool := m.entries.isEmpty

end SortedMap

end Lookahead
