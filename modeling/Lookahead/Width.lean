/-!
Counts of fixed width. A count of a given width is below the limit of that width.
-/
namespace Lookahead

/-- One more than the greatest 64-bit count. -/
def wordLimit : Nat := 0x10000000000000000

/-- One more than the greatest 32-bit count. -/
def halfWordLimit : Nat := 0x100000000

end Lookahead
