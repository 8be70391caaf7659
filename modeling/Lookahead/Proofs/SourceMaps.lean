import Lookahead.Lexer.Scan

/-!
One scan over two sources. A run reads, and goes on according to what it has read;
besides that it works with its source through the mark and the position only. So a map
from one kind of source to another that keeps these operations takes the scan over a
source to the scan over its image: a source may carry more than a scan makes use of.
-/
namespace Lookahead

/-- The map commutes with every operation of a source. -/
structure CharSource.Maps {σ ρ : Type} [CharSource σ] [CharSource ρ] (f : σ → ρ) : Prop where
  read : ∀ s, CharSource.read (f s) = ((CharSource.read s).1, f (CharSource.read s).2)
  mark : ∀ s, CharSource.mark (f s) = f (CharSource.mark s)
  rewind : ∀ s, CharSource.rewind (f s) = ((CharSource.rewind s).1, f (CharSource.rewind s).2)
  release : ∀ s, CharSource.release (f s) = f (CharSource.release s)
  position : ∀ s, CharSource.position (f s) = CharSource.position s

namespace Scan

section Equations

variable {σ : Type} [CharSource σ] {max : Option Nat} {start : Position} {s : Scan}
  {source source' : σ}

theorem run_of_failure {e : InputError} (h : CharSource.read source = (.error e, source')) :
    s.run max start source = (.error (.input e), source') := by
  rw [run]
  split <;> simp_all

theorem run_of_end (h : CharSource.read source = (.ok none, source')) :
    s.run max start source = s.finish start source' := by
  rw [run]
  split <;> simp_all

/-- The rest of a run after a character was read. -/
def proceed (max : Option Nat) (start : Position) (s : Scan) (c : Char) (source : σ) :
    Except LexerError (Option Token) × σ :=
  match exceeds max (s.length + 1) with
  | some max => (.error (.tokenTooLong max ⟨start, CharSource.position source⟩), source)
  | none =>
      match s.push c with
      | .error e => (.error e, source)
      | .ok s =>
          let source' := if s.isSettled then CharSource.mark source else source
          if s.isLive then s.run max start source' else s.finish start source'

theorem run_of_char {c : Char} (h : CharSource.read source = (.ok (some c), source')) :
    s.run max start source = s.proceed max start c source' := by
  rw [run]
  split
  · simp_all
  · simp_all
  · rename_i d source'' hread
    rw [h] at hread
    cases hread
    rfl

end Equations

section Maps

variable {σ ρ : Type} [CharSource σ] [CharSource ρ] {f : σ → ρ}

theorem read_map (hf : CharSource.Maps f) {source source' : σ}
    {answer : Except InputError (Option Char)} (h : CharSource.read source = (answer, source')) :
    CharSource.read (f source) = (answer, f source') := by
  rw [hf.read, h]

theorem settle_map (hf : CharSource.Maps f) (settled : Bool) (source : σ) :
    (if settled then CharSource.mark (f source) else f source) =
      f (if settled then CharSource.mark source else source) := by
  cases settled with
  | true => exact hf.mark source
  | false => rfl

theorem finish_map (hf : CharSource.Maps f) (s : Scan) (start : Position) (source : σ) :
    s.finish start (f source) = ((s.finish start source).1, f (s.finish start source).2) := by
  simp only [finish, hf.rewind, hf.position]
  split
  · cases CharSource.rewind source with
    | mk answer source' =>
        cases answer with
        | error e => rfl
        | ok _ => simp only [hf.position]
  · split <;> rfl

theorem run_map (hf : CharSource.Maps f) (max : Option Nat) (start : Position) (s : Scan)
    (source : σ) :
    s.run max start (f source) =
      ((s.run max start source).1, f (s.run max start source).2) := by
  fun_induction run max start s source with
  | case1 s source e source' hread => rw [run_of_failure (read_map hf hread)]
  | case2 s source source' hread => rw [run_of_end (read_map hf hread), finish_map hf]
  | case3 s source c source' hread limit hexceeds =>
      rw [run_of_char (read_map hf hread), proceed, hexceeds, hf.position]
  | case4 s source c source' hread hexceeds e hpush =>
      rw [run_of_char (read_map hf hread), proceed, hexceeds, hpush]
  | case5 s source c source' hread hexceeds s' hpush source'' hlive ih =>
      have hsettle := settle_map hf s'.isSettled source'
      rw [run_of_char (read_map hf hread), proceed, hexceeds, hpush]
      simp only [hsettle, hlive, if_true]
      exact ih
  | case6 s source c source' hread hexceeds s' hpush source'' hlive =>
      have hsettle := settle_map hf s'.isSettled source'
      rw [run_of_char (read_map hf hread), proceed, hexceeds, hpush]
      simp only [hsettle, hlive, Bool.false_eq_true, if_false]
      exact finish_map hf s' start source''

theorem token_map (hf : CharSource.Maps f) (acceptors : List Acceptor) (max : Option Nat)
    (source : σ) :
    token acceptors max (f source) =
      ((token acceptors max source).1, f (token acceptors max source).2) := by
  simp only [token, hf.position, run_map hf, hf.release]

end Maps

end Scan

end Lookahead
