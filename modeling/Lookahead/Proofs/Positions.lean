import Lookahead.Span

/-!
Positions after texts. Stepping over a text character by character comes to the
position that the text as a whole determines, which fits the fixed widths as long
as the text is not too long.
-/
namespace Lookahead

namespace Position

theorem advanceAll_cons (p : Position) (c : Char) (text : List Char) :
    p.advanceAll (c :: text) = (p.advance c).advanceAll text := rfl

theorem advanceAll_append (p : Position) (front back : List Char) :
    p.advanceAll (front ++ back) = (p.advanceAll front).advanceAll back :=
  List.foldl_append

/-- The position right after a text: its number of characters, one more than its
number of newlines, and one more than its number of characters after the last of
these. -/
def after (text : List Char) : Position where
  offset := text.length
  line := 1 + text.count '\n'
  column := 1 + (text.reverse.takeWhile (· ≠ '\n')).length

theorem after_snoc (text : List Char) (c : Char) :
    after (text ++ [c]) = (after text).advance c := by
  by_cases hnewline : c = '\n'
  · simp [after, advance, hnewline, Nat.add_assoc]
  · simp [after, advance, hnewline, Nat.add_comm]

theorem after_append (front back : List Char) :
    after (front ++ back) = (after front).advanceAll back := by
  induction back generalizing front with
  | nil => rw [List.append_nil]; rfl
  | cons c back ih => rw [List.append_cons, ih, after_snoc, advanceAll_cons]

theorem start_advanceAll (text : List Char) : start.advanceAll text = after text :=
  (after_append [] text).symm

theorem after_fits {text : List Char} (h : text.length + 1 < halfWordLimit) :
    (after text).Fits := by
  have hlines : text.count '\n' ≤ text.length := List.count_le_length
  have hcolumns : (text.reverse.takeWhile (· ≠ '\n')).length ≤ text.length := by
    have hsublist := (List.takeWhile_sublist (l := text.reverse) (· ≠ '\n')).length_le
    rwa [List.length_reverse] at hsublist
  simp only [Fits, after, wordLimit, halfWordLimit] at h ⊢
  omega

/-- The position of a place on a line. -/
theorem after_line {before front : List Char}
    (hstarts : before = [] ∨ before.getLast? = some '\n') (hfront : '\n' ∉ front) :
    after (before ++ front) =
      ⟨before.length + front.length, 1 + before.count '\n', 1 + front.length⟩ := by
  have hbefore : before.reverse.takeWhile (· ≠ '\n') = [] := by
    obtain rfl | hlast := hstarts
    · rfl
    · obtain ⟨start, rfl⟩ := List.getLast?_eq_some_iff.mp hlast
      simp
  have hline : ∀ c ∈ front.reverse, (decide (c ≠ '\n')) = true := by
    intro c hc
    rw [decide_eq_true_iff]
    rintro rfl
    exact hfront (List.mem_reverse.mp hc)
  rw [after, List.reverse_append, List.takeWhile_append_of_pos hline, hbefore,
    List.count_append, List.count_eq_zero.mpr hfront]
  simp

/-- On a text that is short enough the bounded steps do what the unbounded ones do. -/
theorem advanceAll?_after (front back : List Char)
    (h : (front ++ back).length + 1 < halfWordLimit) :
    (after front).advanceAll? back = .ok (after (front ++ back)) := by
  induction back generalizing front with
  | nil => rw [List.append_nil]; rfl
  | cons c back ih =>
      have hfits : ((after front).advance c).Fits := by
        rw [← after_snoc]
        apply after_fits
        rw [List.length_append, List.length_cons] at h
        rw [List.length_append, List.length_singleton]
        omega
      have hstep : (after front).advance? c = .ok (after (front ++ [c])) := by
        rw [advance?, if_pos hfits, after_snoc]
      rw [List.append_cons] at h ⊢
      rw [← ih (front ++ [c]) h, advanceAll?, List.foldlM_cons, hstep]
      rfl

end Position

end Lookahead
