import Lookahead.Text.CharClass

/-!
The character classes, character by character. A class is tested by ranges and by lists
of its own; here each class is written out as a set, and a test agrees with its set on
all characters. A statement that refers to the sets does not depend on the tests.
-/
namespace Lookahead.CharClass

def smallLetters : List Char :=
  ['a', 'b', 'c', 'd', 'e', 'f', 'g', 'h', 'i', 'j', 'k', 'l', 'm', 'n', 'o', 'p', 'q', 'r', 's',
    't', 'u', 'v', 'w', 'x', 'y', 'z']

def capitalLetters : List Char :=
  ['A', 'B', 'C', 'D', 'E', 'F', 'G', 'H', 'I', 'J', 'K', 'L', 'M', 'N', 'O', 'P', 'Q', 'R', 'S',
    'T', 'U', 'V', 'W', 'X', 'Y', 'Z']

def members : CharClass → List Char
  | .letter => smallLetters ++ capitalLetters
  | .small => smallLetters ++ ['_']
  | .large => capitalLetters
  | .digit => ['0', '1', '2', '3', '4', '5', '6', '7', '8', '9']
  | .symbolic =>
      ['!', '#', '$', '%', '&', '*', '+', '-', '.', '/', ':', '<', '=', '>', '?', '@', '\\', '^',
        '|', '~']
  | .whitespace => ['\t', '\n', '\x0c', '\r', ' ']
  | .newline => ['\n', '\x0c', '\r']

/-- The class has the character in its set. -/
def lists (k : CharClass) (c : Char) : Bool := k.members.contains c

/-- A set whose codes follow one another is a range. -/
theorem contains_eq_range {set : List Char} {first last : Char}
    (hcodes : set.map Char.toNat = List.range' first.toNat (last.toNat + 1 - first.toNat))
    (c : Char) : set.contains c = (first ≤ c && c ≤ last) := by
  have hmem : c ∈ set ↔ c.toNat ∈ set.map Char.toNat := by
    constructor
    · exact List.mem_map_of_mem
    · intro h
      obtain ⟨d, hd, heq⟩ := List.mem_map.mp h
      rwa [← Char.toNat_inj.mp heq]
  rw [hcodes, List.mem_range'_1] at hmem
  rw [Bool.eq_iff_iff, List.contains_iff_mem, hmem]
  simp only [Bool.and_eq_true, decide_eq_true_eq, Char.le_def, UInt32.le_iff_toNat_le,
    Char.toNat_val]
  omega

theorem contains_smallLetters : ∀ c, smallLetters.contains c = isLowercase c :=
  contains_eq_range (by decide)

theorem contains_capitalLetters : ∀ c, capitalLetters.contains c = isUppercase c :=
  contains_eq_range (by decide)

theorem lists_eq_contains (k : CharClass) : k.lists = k.contains := by
  funext c
  cases k with
  | letter =>
      simp only [lists, members, contains, List.contains_append, contains_smallLetters,
        contains_capitalLetters]
  | small =>
      simp only [lists, members, contains, List.contains_append, contains_smallLetters,
        List.contains_cons, List.contains_nil, Bool.or_false]
  | large => exact contains_capitalLetters c
  | digit => exact contains_eq_range (by decide) c
  | symbolic | whitespace | newline => exact List.Perm.contains_eq (by decide)

end Lookahead.CharClass
