import Lookahead.Excerpt
import Lookahead.Proofs.Positions
import Mathlib.Data.List.DropRight

/-!
Excerpts point at their spans. A position counts the newlines before it and the
characters since the last of these, and an excerpt splits the whole text at its
newlines: the number of a position's line leads to the piece of the text around its
offset, and its column to the place of the offset in that piece. The carets below go as
far as the span does, or to the end of the line if the span goes on to another.
-/
namespace Lookahead

/-- The line of a text around an offset: it starts at the first offset after a newline or
at the start of the text, it stops before a newline or at the end of the text, and it is
shown without the carriage returns at its end. The offset may be that of the newline. -/
structure LineAround (text : List Char) (offset : Nat) (before shown returns after : List Char) :
    Prop where
  split : text = before ++ (shown ++ returns) ++ after
  starts : before = [] ∨ before.getLast? = some '\n'
  whole : '\n' ∉ shown ++ returns
  stops : after = [] ∨ after.head? = some '\n'
  holds : before.length ≤ offset ∧ offset ≤ before.length + (shown ++ returns).length
  returned : ∀ c ∈ returns, c = '\r'
  trimmed : shown.getLast? ≠ some '\r'

section Around

theorem head?_dropWhile {p : Char → Bool} {text : List Char} {c : Char}
    (h : (text.dropWhile p).head? = some c) : p c = false := by
  have hnot := List.head?_dropWhile_not p text
  rwa [h] at hnot

theorem getLast?_rdropWhile {p : Char → Bool} {text : List Char} {c : Char}
    (h : (text.rdropWhile p).getLast? = some c) : p c = false := by
  rw [List.rdropWhile, List.getLast?_reverse] at h
  exact head?_dropWhile h

theorem exists_lineStart (front : List Char) :
    ∃ before line, front = before ++ line ∧ (before = [] ∨ before.getLast? = some '\n') ∧
      '\n' ∉ line := by
  refine ⟨front.rdropWhile (· ≠ '\n'), front.rtakeWhile (· ≠ '\n'), ?_, ?_, ?_⟩
  · rw [List.rdropWhile_append_rtakeWhile]
  · cases hlast : (front.rdropWhile (· ≠ '\n')).getLast? with
    | none => exact Or.inl (List.getLast?_eq_none_iff.mp hlast)
    | some c =>
        have hc : c = '\n' := by simpa using getLast?_rdropWhile hlast
        exact Or.inr (congrArg some hc)
  · intro hmem
    simpa using List.mem_rtakeWhile_imp hmem

theorem exists_lineStop (rest : List Char) :
    ∃ line after, rest = line ++ after ∧ (after = [] ∨ after.head? = some '\n') ∧
      '\n' ∉ line := by
  refine ⟨rest.takeWhile (· ≠ '\n'), rest.dropWhile (· ≠ '\n'), ?_, ?_, ?_⟩
  · rw [List.takeWhile_append_dropWhile]
  · cases hhead : (rest.dropWhile (· ≠ '\n')).head? with
    | none => exact Or.inl (List.head?_eq_none_iff.mp hhead)
    | some c =>
        have hc : c = '\n' := by simpa using head?_dropWhile hhead
        exact Or.inr (congrArg some hc)
  · intro hmem
    simpa using List.mem_takeWhile_imp hmem

theorem exists_trimmed (line : List Char) :
    ∃ shown returns, line = shown ++ returns ∧ (∀ c ∈ returns, c = '\r') ∧
      shown.getLast? ≠ some '\r' := by
  refine ⟨line.rdropWhile (· = '\r'), line.rtakeWhile (· = '\r'), ?_, ?_, ?_⟩
  · rw [List.rdropWhile_append_rtakeWhile]
  · intro c hc
    simpa using List.mem_rtakeWhile_imp hc
  · intro hlast
    simpa using getLast?_rdropWhile hlast

/-- Every offset of a text is on a line of it. -/
theorem exists_lineAround {text : List Char} {offset : Nat} (h : offset ≤ text.length) :
    ∃ before shown returns after, LineAround text offset before shown returns after := by
  obtain ⟨before, front, hfront, hstarts, hbefore⟩ := exists_lineStart (text.take offset)
  obtain ⟨rest, after, hrest, hstops, hafter⟩ := exists_lineStop (text.drop offset)
  obtain ⟨shown, returns, hline, hreturned, htrimmed⟩ := exists_trimmed (front ++ rest)
  have hlength := congrArg List.length hfront
  rw [List.length_take, List.length_append] at hlength
  refine ⟨before, shown, returns, after, ?_, hstarts, ?_, hstops, ?_, hreturned, htrimmed⟩
  · rw [← hline, ← List.append_assoc, ← hfront, List.append_assoc, ← hrest,
      List.take_append_drop]
  · rw [← hline, List.mem_append, not_or]
    exact ⟨hbefore, hafter⟩
  · rw [← hline, List.length_append]
    omega

end Around

section Lines

variable {before line after : List Char}

theorem splitLines_go_extends (finished : List (List Char)) (current rest : List Char) :
    finished.reverse <+: splitLines.go finished current rest := by
  induction rest generalizing finished current with
  | nil => simp [splitLines.go]
  | cons c rest ih =>
      by_cases hc : c = '\n'
      · subst hc
        rw [splitLines.go]
        refine List.IsPrefix.trans ?_ (ih _ _)
        simp
      · rw [splitLines.go]
        · exact ih finished (c :: current)
        · exact hc

/-- The walk over some text has finished as many lines as there are newlines in it. -/
theorem splitLines_go_append (front rest : List Char) (finished : List (List Char))
    (current : List Char) :
    ∃ finished' current', splitLines.go finished current (front ++ rest) =
        splitLines.go finished' current' rest ∧
      finished'.length = finished.length + front.count '\n' := by
  induction front generalizing finished current with
  | nil => exact ⟨finished, current, rfl, rfl⟩
  | cons c front ih =>
      by_cases hc : c = '\n'
      · subst hc
        obtain ⟨finished', current', hgo, hlength⟩ := ih (current.reverse :: finished) []
        refine ⟨finished', current', hgo, ?_⟩
        rw [hlength, List.count_cons_self, List.length_cons]
        omega
      · obtain ⟨finished', current', hgo, hlength⟩ := ih finished (c :: current)
        refine ⟨finished', current', ?_, ?_⟩
        · rw [List.cons_append, splitLines.go, hgo]
          exact hc
        · rw [hlength, List.count_cons_of_ne hc]

theorem splitLines_go_line (hline : '\n' ∉ line) (finished : List (List Char))
    (current rest : List Char) :
    splitLines.go finished current (line ++ rest) =
      splitLines.go finished (line.reverse ++ current) rest := by
  induction line generalizing current with
  | nil => rfl
  | cons c line ih =>
      rw [List.mem_cons, not_or] at hline
      rw [List.cons_append, splitLines.go, ih hline.2]
      · simp
      · exact Ne.symm hline.1

/-- The line after some newlines is the piece with their number. -/
theorem splitLines_getElem? (hstarts : before = [] ∨ before.getLast? = some '\n')
    (hline : '\n' ∉ line) (hstops : after = [] ∨ after.head? = some '\n') :
    (splitLines (before ++ line ++ after))[before.count '\n']? = some line := by
  -- the walk comes to the line with all lines before it finished and none begun
  have hbefore : ∃ finished, finished.length = before.count '\n' ∧
      splitLines (before ++ line ++ after) = splitLines.go finished [] (line ++ after) := by
    obtain rfl | hlast := hstarts
    · exact ⟨[], rfl, rfl⟩
    · obtain ⟨front, rfl⟩ := List.getLast?_eq_some_iff.mp hlast
      obtain ⟨finished, current, hgo, hlength⟩ :=
        splitLines_go_append front ('\n' :: (line ++ after)) [] []
      refine ⟨current.reverse :: finished, ?_, ?_⟩
      · simpa using hlength
      · simpa [splitLines, splitLines.go] using hgo
  obtain ⟨finished, hlength, hsplit⟩ := hbefore
  -- the line is the next one to be finished, and what is finished stays in front
  have hfront : finished.reverse ++ [line] <+: splitLines (before ++ line ++ after) := by
    rw [hsplit, splitLines_go_line hline]
    obtain rfl | hhead := hstops
    · simp [splitLines.go]
    · obtain ⟨rest, rfl⟩ := List.head?_eq_some_iff.mp hhead
      rw [splitLines.go]
      simpa using splitLines_go_extends (line :: finished) [] rest
  obtain ⟨rest, hrest⟩ := hfront
  rw [← hrest, ← hlength]
  simp

/-- Only the carriage returns at the end are dropped. -/
theorem trimReturns_append {shown returns : List Char} (hreturned : ∀ c ∈ returns, c = '\r')
    (htrimmed : shown.getLast? ≠ some '\r') : trimReturns (shown ++ returns) = shown := by
  have hreturns : ∀ c ∈ returns.reverse, (c == '\r') = true := by
    intro c hc
    simp [hreturned c (List.mem_reverse.mp hc)]
  have hshown : shown.reverse.dropWhile (· == '\r') = shown.reverse := by
    rw [← List.head?_reverse] at htrimmed
    cases hreverse : shown.reverse with
    | nil => rfl
    | cons c rest =>
        rw [hreverse, List.head?_cons, ne_eq, Option.some_inj] at htrimmed
        simp [htrimmed]
  rw [trimReturns, List.reverse_append, List.dropWhile_append_of_pos hreturns, hshown,
    List.reverse_reverse]

end Lines

namespace LineAround

variable {text before shown returns after : List Char} {i j : Nat}
  (h : LineAround text i before shown returns after)
include h

theorem take_eq : text.take i = before ++ (shown ++ returns).take (i - before.length) := by
  have hfits : i - before.length ≤ (shown ++ returns).length := by
    have := h.holds.2
    omega
  rw [h.split, List.append_assoc, List.take_append, List.take_of_length_le h.holds.1,
    List.take_append_of_le_length hfits]

theorem newline_not_mem_take : '\n' ∉ (shown ++ returns).take (i - before.length) :=
  fun hmem => h.whole (List.mem_of_mem_take hmem)

theorem length_take : ((shown ++ returns).take (i - before.length)).length = i - before.length := by
  have := h.holds.2
  rw [List.length_take]
  omega

theorem after_eq : Position.after (text.take i) =
    ⟨i, 1 + before.count '\n', 1 + (i - before.length)⟩ := by
  have hstart := h.holds.1
  rw [h.take_eq, Position.after_line h.starts h.newline_not_mem_take, h.length_take]
  congr 1
  omega

theorem line?_eq : (SourceLines.ofText text).line? (1 + before.count '\n') = some shown := by
  have hpiece := splitLines_getElem? h.starts h.whole h.stops
  rw [← h.split] at hpiece
  rw [SourceLines.line?, if_neg (by omega), Nat.add_sub_cancel_left, SourceLines.ofText,
    List.getElem?_toArray, List.getElem?_map, hpiece, Option.map_some,
    trimReturns_append h.returned h.trimmed]

/-- A span that stays on the line is underlined as far as it goes, and one that leaves it
to the end of what is shown. -/
theorem caretCount_eq (hij : i ≤ j) (hj : j ≤ text.length) :
    SourceLines.caretCount ⟨.after (text.take i), .after (text.take j)⟩ shown.length =
      .ok (max 1 (if '\n' ∈ (text.take j).drop i then shown.length - (i - before.length)
        else j - i)) := by
  have hsplit : text.take j = text.take i ++ (text.take j).drop i := by
    rw [← List.take_append_drop i (text.take j), List.take_take, Nat.min_eq_left hij,
      List.drop_left' (List.length_take_of_le (Nat.le_trans hij hj))]
  have hlength : ((text.take j).drop i).length = j - i := by
    rw [List.length_drop, List.length_take_of_le hj]
  generalize (text.take j).drop i = covered at hsplit hlength ⊢
  by_cases hnewline : '\n' ∈ covered
  · -- the span ends on a later line
    have hline : (Position.after (text.take i)).line ≠ (Position.after (text.take j)).line := by
      have hpos := List.count_pos_iff.mpr hnewline
      rw [hsplit]
      simp only [Position.after, List.count_append]
      omega
    rw [SourceLines.caretCount, if_neg hline, h.after_eq, if_pos hnewline]
    simp
  · -- the line goes on to the end of the span, carriage returns included
    have hfront : '\n' ∉ (shown ++ returns).take (i - before.length) ++ covered := by
      rw [List.mem_append, not_or]
      exact ⟨h.newline_not_mem_take, hnewline⟩
    have hstop : Position.after (text.take j) =
        ⟨before.length + (i - before.length + (j - i)), 1 + before.count '\n',
          1 + (i - before.length + (j - i))⟩ := by
      rw [hsplit, h.take_eq, List.append_assoc, Position.after_line h.starts hfront,
        List.length_append, h.length_take, hlength]
    rw [SourceLines.caretCount, h.after_eq, hstop, if_pos rfl, if_neg hnewline]
    congr 2
    simp only
    omega

end LineAround

/-- The rows of an excerpt: the message, the place, an empty row, the line and a row of
blanks and carets, in which the gutter is as wide as the number of the line. -/
def excerptRows (message : String) (number column : Nat) (shown : List Char)
    (blanks carets : Nat) : List String :=
  let row (length : Nat) (c : Char) : String := String.ofList (List.replicate length c)
  let gutter := row (toString number).length ' '
  ["Error: " ++ message, "  --> " ++ toString number ++ ":" ++ toString column,
    gutter ++ " |", toString number ++ " | " ++ String.ofList shown,
    gutter ++ " | " ++ row blanks ' ' ++ row carets '^']

namespace SourceLines

theorem excerpt_of_line {s : SourceLines} {span : Span} {shown : List Char} {carets : Nat}
    (hline : s.line? span.start.line = some shown)
    (hcarets : caretCount span shown.length = .ok carets) (message : String) :
    s.excerpt span message = .ok (String.join ((excerptRows message span.start.line
      span.start.column shown (span.start.column - 1) carets).map (· ++ "\n"))) := by
  simp only [excerpt, hline, hcarets, excerptRows, Position.render, List.map_cons, List.map_nil,
    String.join_cons, String.join_nil, String.append_assoc, String.append_empty, toString]
  rfl

/-- The positions of two offsets of a text can be computed, and the excerpt for the span
between them shows the line around the first: the blanks of the last row lead to the
offset, and the carets go to the second offset, or to the end of the line if there is a
newline between the two; but there is always one. -/
theorem excerpt_points {text : List Char} {i j : Nat} (hij : i ≤ j) (hj : j ≤ text.length)
    (hsize : text.length < halfWordLimit - 1) (message : String) :
    ∃ span : Span,
      Position.start.advanceAll? (text.take i) = .ok span.start ∧
      Position.start.advanceAll? (text.take j) = .ok span.stop ∧
      Span.between? span.start span.stop = .ok span ∧
      (∃ before shown returns after, LineAround text i before shown returns after) ∧
      ∀ before shown returns after, LineAround text i before shown returns after →
        (ofText text).excerpt span message = .ok (String.join
          ((excerptRows message (1 + before.count '\n') (1 + (i - before.length)) shown
            (i - before.length)
            (max 1 (if '\n' ∈ (text.take j).drop i then shown.length - (i - before.length)
              else j - i))).map (· ++ "\n"))) := by
  have hposition : ∀ k ≤ text.length,
      Position.start.advanceAll? (text.take k) = .ok (.after (text.take k)) := by
    intro k hk
    refine Position.advanceAll?_after [] (text.take k) ?_
    rw [List.nil_append, List.length_take_of_le hk]
    omega
  have hi := Nat.le_trans hij hj
  have hordered :
      (Position.after (text.take i)).offset ≤ (Position.after (text.take j)).offset := by
    simp only [Position.after, List.length_take]
    omega
  refine ⟨⟨.after (text.take i), .after (text.take j)⟩, hposition i hi, hposition j hj, ?_,
    exists_lineAround hi, ?_⟩
  · rw [Span.between?, if_pos hordered]
  · intro before shown returns after h
    have hline : (ofText text).line? (Position.after (text.take i)).line = some shown := by
      rw [h.after_eq]
      exact h.line?_eq
    have hexcerpt := excerpt_of_line hline (h.caretCount_eq hij hj) message
    rw [hexcerpt, h.after_eq, Nat.add_sub_cancel_left]

theorem excerpt_points_two_lines :
    1 ≤ 6 ∧ 6 ≤ "one\r\ntwo\n".toList.length ∧
    "one\r\ntwo\n".toList.length < halfWordLimit - 1 ∧
    ∃ span : Span,
      Position.start.advanceAll? ("one\r\ntwo\n".toList.take 1) = .ok span.start ∧
      Position.start.advanceAll? ("one\r\ntwo\n".toList.take 6) = .ok span.stop ∧
      (ofText "one\r\ntwo\n".toList).excerpt span "boom" =
        .ok "Error: boom\n  --> 1:2\n  |\n1 | one\n  |  ^^\n" := by
  have hline : LineAround "one\r\ntwo\n".toList 1 [] "one".toList ['\r'] "\ntwo\n".toList := by
    refine ⟨by decide +kernel, Or.inl rfl, by decide +kernel, Or.inr rfl, by decide +kernel, ?_,
      by decide +kernel⟩
    intro c hc
    exact List.mem_singleton.mp hc
  refine ⟨by decide, by decide +kernel, by decide +kernel, ?_⟩
  obtain ⟨span, hstart, hstop, -, -, hexcerpt⟩ :=
    @excerpt_points "one\r\ntwo\n".toList 1 6 (by decide) (by decide +kernel) (by decide +kernel)
      "boom"
  refine ⟨span, hstart, hstop, ?_⟩
  rw [hexcerpt _ _ _ _ hline]
  decide +kernel

end SourceLines

end Lookahead
