import Lookahead.CommandLine.Repl
import Lookahead.Proofs.Encoding

/-!
The lines of an input in bytes. No byte of an encoded character is that of a line end,
the line end itself apart; so an input that encodes some lines, each with its line end,
is divided into the encodings of just these lines, and each is decoded again. A last
line needs no line end, but an empty one is no line without it.
-/
namespace Lookahead

namespace Utf8

theorem newline_ne_ofNat {n : Nat} (hlt : n < 256) (hne : n ≠ 10) : 0x0A ≠ UInt8.ofNat n := by
  intro h
  have hbyte := congrArg UInt8.toNat h
  rw [toNat_ofNat hlt] at hbyte
  exact hne hbyte.symm

theorem newline_not_mem_utf8EncodeChar {c : Char} (h : c ≠ '\n') :
    0x0A ∉ String.utf8EncodeChar c := by
  have hlt := toNat_lt c
  have hval : c.val.toNat = c.toNat := rfl
  have hne : c.toNat ≠ 10 := fun hc => h (Char.toNat_inj.mp hc)
  fun_cases String.utf8EncodeChar c with
  | case1 v h1 =>
      rw [List.mem_singleton]
      exact newline_ne_ofNat (by omega) (by omega)
  | case2 v h1 h2 =>
      simp only [List.mem_cons, List.not_mem_nil, or_false, not_or]
      refine ⟨?_, ?_⟩ <;> exact newline_ne_ofNat (by omega) (by omega)
  | case3 v h1 h2 h3 =>
      simp only [List.mem_cons, List.not_mem_nil, or_false, not_or]
      refine ⟨?_, ?_, ?_⟩ <;> exact newline_ne_ofNat (by omega) (by omega)
  | case4 v h1 h2 h3 =>
      simp only [List.mem_cons, List.not_mem_nil, or_false, not_or]
      refine ⟨?_, ?_, ?_, ?_⟩ <;> exact newline_ne_ofNat (by omega) (by omega)

theorem newline_not_mem_encode {text : List Char} (h : '\n' ∉ text) : 0x0A ∉ encode text := by
  intro hmem
  obtain ⟨c, hc, hbyte⟩ := List.mem_flatMap.mp hmem
  exact newline_not_mem_utf8EncodeChar (fun heq => h (heq ▸ hc)) hbyte

theorem encode_append (text text' : List Char) :
    encode (text ++ text') = encode text ++ encode text' :=
  List.flatMap_append

theorem encode_eq_nil_iff {text : List Char} : encode text = [] ↔ text = [] := by
  cases text with
  | nil => simp [encode]
  | cons c text =>
      obtain ⟨first, others, hencoded, _⟩ := utf8EncodeChar_cases c
      simp [encode_cons, hencoded]

theorem decode?_go_encode (read text : List Char) :
    decode?.go read (encode text) = some (read.reverse ++ text) := by
  induction text generalizing read with
  | nil =>
      rw [encode, List.flatMap_nil, decode?.go]
      simp
  | cons c text ih =>
      obtain ⟨first, others, hencoded, hwidth, hscalar⟩ := utf8EncodeChar_cases c
      rw [encode_cons, hencoded, List.cons_append, decode?.go]
      simp only [hwidth, Nat.add_sub_cancel, List.take_left, List.drop_left, hscalar]
      rw [ih]
      simp

theorem decode?_encode (text : List Char) : decode? (encode text) = some text :=
  decode?_go_encode [] text

end Utf8

namespace CommandLine

theorem inputLines_go_line {line : List UInt8} (h : 0x0A ∉ line)
    (finished : List (List UInt8)) (current rest : List UInt8) :
    inputLines.go finished current (line ++ 0x0A :: rest) =
      inputLines.go ((current.reverse ++ (line ++ [0x0A])) :: finished) [] rest := by
  induction line generalizing current with
  | nil => simp [inputLines.go]
  | cons b line ih =>
      have hb : b ≠ 0x0A := fun heq => h (heq ▸ List.mem_cons_self)
      have hline : 0x0A ∉ line := fun hmem => h (List.mem_cons_of_mem _ hmem)
      rw [List.cons_append, inputLines.go, if_neg hb, ih hline]
      simp

theorem inputLines_go_last {last : List UInt8} (h : 0x0A ∉ last)
    (finished : List (List UInt8)) (current : List UInt8) :
    inputLines.go finished current last =
      finished.reverse ++ if current.reverse ++ last = [] then [] else [current.reverse ++ last] := by
  induction last generalizing current with
  | nil =>
      cases current with
      | nil => simp [inputLines.go]
      | cons b current => simp [inputLines.go]
  | cons b last ih =>
      have hb : b ≠ 0x0A := fun heq => h (heq ▸ List.mem_cons_self)
      have hlast : 0x0A ∉ last := fun hmem => h (List.mem_cons_of_mem _ hmem)
      rw [inputLines.go, if_neg hb, ih hlast]
      simp

/-- A line of text without its line end. -/
structure IsLine (line : List Char) : Prop where
  newline_not_mem : '\n' ∉ line
  getLast?_ne : line.getLast? ≠ some '\r'

/-- The text of some lines with their line ends and of a last one without. -/
def inputText (lines : List (List Char)) (last : List Char) : List Char :=
  lines.flatMap (fun line => line ++ ['\n']) ++ last

/-- What is not ended by a line end is a line unless it is empty. -/
def unfinished (last : List Char) : List (List Char) := if last = [] then [] else [last]

theorem encode_inputText_cons (line : List Char) (lines : List (List Char)) (last : List Char) :
    Utf8.encode (inputText (line :: lines) last) =
      Utf8.encode line ++ 0x0A :: Utf8.encode (inputText lines last) := by
  have htext : inputText (line :: lines) last = line ++ '\n' :: inputText lines last := by
    simp [inputText]
  rw [htext, Utf8.encode_append, Utf8.encode_cons]
  rfl

theorem inputLines_go_inputText {lines : List (List Char)} {last : List Char}
    (hlines : ∀ line ∈ lines, IsLine line) (hlast : IsLine last)
    (finished : List (List UInt8)) :
    inputLines.go finished [] (Utf8.encode (inputText lines last)) =
      finished.reverse ++ (lines.map (fun line => line ++ ['\n']) ++ unfinished last).map
        Utf8.encode := by
  induction lines generalizing finished with
  | nil =>
      have hlast := Utf8.newline_not_mem_encode hlast.newline_not_mem
      rw [inputText, List.flatMap_nil, List.nil_append, inputLines_go_last hlast]
      by_cases hempty : last = [] <;> simp [unfinished, hempty, Utf8.encode_eq_nil_iff]
  | cons line lines ih =>
      have hline := Utf8.newline_not_mem_encode (hlines line List.mem_cons_self).newline_not_mem
      have hrest := fun line' hmem => hlines line' (List.mem_cons_of_mem line hmem)
      rw [encode_inputText_cons, inputLines_go_line hline, ih hrest]
      simp [Utf8.encode, String.utf8EncodeChar]

theorem inputLines_inputText {lines : List (List Char)} {last : List Char}
    (hlines : ∀ line ∈ lines, IsLine line) (hlast : IsLine last) :
    inputLines (Utf8.encode (inputText lines last)) =
      (lines.map (fun line => line ++ ['\n']) ++ unfinished last).map Utf8.encode :=
  inputLines_go_inputText hlines hlast []

theorem trimLineEnd_of_isLine {line : List Char} (h : IsLine line) : trimLineEnd line = line := by
  cases hreverse : line.reverse with
  | nil =>
      obtain rfl : line = [] := List.reverse_eq_nil_iff.mp hreverse
      rfl
  | cons c front =>
      have hline : line = front.reverse ++ [c] := by
        rw [← List.reverse_cons, ← hreverse, List.reverse_reverse]
      have hnewline : c ≠ '\n' := by
        intro hc
        exact h.newline_not_mem (by simp [hline, hc])
      have hreturn : c ≠ '\r' := by
        intro hc
        exact h.getLast?_ne (by simp [hline, hc])
      simp [trimLineEnd, hnewline, hreturn, hline]

theorem trimLineEnd_newline (line : List Char) :
    trimLineEnd (line ++ ['\n']) = trimLineEnd line := by
  simp [trimLineEnd]

theorem listLine_newline (acceptors : List Acceptor) (preferences : LexicalPreferences)
    (line : List Char) :
    listLine acceptors preferences (line ++ ['\n']) = listLine acceptors preferences line := by
  simp only [listLine, trimLineEnd_newline]

/-- The prompt and the listing of each line, one line after the other. -/
def session (acceptors : List Acceptor) (preferences : LexicalPreferences) :
    List (List Char) → String
  | [] => ""
  | line :: lines =>
      prompt ++ listLine acceptors preferences line ++ session acceptors preferences lines

theorem session_append (acceptors : List Acceptor) (preferences : LexicalPreferences)
    (lines lines' : List (List Char)) :
    session acceptors preferences (lines ++ lines') =
      session acceptors preferences lines ++ session acceptors preferences lines' := by
  induction lines with
  | nil => simp [session]
  | cons line lines ih => simp [session, ih, String.append_assoc]

theorem session_newline (acceptors : List Acceptor) (preferences : LexicalPreferences)
    (lines : List (List Char)) :
    session acceptors preferences (lines.map fun line => line ++ ['\n']) =
      session acceptors preferences lines := by
  induction lines with
  | nil => rfl
  | cons line lines ih => simp [session, ih, listLine_newline]

theorem listLines_encode (acceptors : List Acceptor) (preferences : LexicalPreferences)
    (out : String) (lines : List (List Char)) :
    listLines acceptors preferences out (lines.map Utf8.encode) =
      (out ++ session acceptors preferences lines ++ prompt ++ "\n", none) := by
  induction lines generalizing out with
  | nil => simp [listLines, session]
  | cons line lines ih =>
      rw [List.map_cons, listLines, Utf8.decode?_encode]
      simp only
      rw [ih]
      simp [session, String.append_assoc]

/-- Every line is listed by itself, whatever the other lines are. -/
theorem repl_inputText (acceptors : List Acceptor) (preferences : LexicalPreferences)
    {lines : List (List Char)} {last : List Char} (hlines : ∀ line ∈ lines, IsLine line)
    (hlast : IsLine last) :
    repl acceptors preferences (Utf8.encode (inputText lines last)) =
      (session acceptors preferences (lines ++ unfinished last) ++ prompt ++ "\n", none) := by
  rw [repl, inputLines_inputText hlines hlast, listLines_encode, session_append, session_newline,
    ← session_append, String.empty_append]

end CommandLine

end Lookahead
