import Lookahead.Log.Code
import Lookahead.Span

/-!
Character sources. A source hands out one character at a time and keeps at most
one mark, to which it can be rewound until the mark is released or replaced.

Two counts come with a source and have no part in what it reads. `remaining`
bounds the characters still to come and `reach` bounds what will remain after a
rewind; the laws on them are what makes every loop over a source end.
-/
namespace Lookahead

open Log (Code)

inductive InputError where
  | fileNotFound (path : String)
  | io (message : String)
  | invalidEncoding (offset : Nat)
  | rewindWindowExceeded (window : Nat)
  | noActiveMark
deriving DecidableEq, Repr

namespace InputError

def message : InputError → String
  | .fileNotFound path => s!"Input file not found: {path}"
  | .io message => s!"I/O error while reading input: {message}"
  | .invalidEncoding offset => s!"Invalid UTF-8 sequence at character offset {offset}"
  | .rewindWindowExceeded window =>
      s!"Backtrack exceeded the rewind window of {window} characters"
  | .noActiveMark => "Rewind requested without an active mark"

def code : InputError → Code
  | .fileNotFound _ => .fileNotFound
  | .io _ => .ioError
  | .invalidEncoding _ => .invalidEncoding
  | .rewindWindowExceeded _ => .rewindWindowExceeded
  | .noActiveMark => .noActiveMark

end InputError

class CharSource (σ : Type) where
  /-- The next character, or none at the end of the input. -/
  read : σ → Except InputError (Option Char) × σ
  mark : σ → σ
  /-- Back to the mark, which stays. -/
  rewind : σ → Except InputError Unit × σ
  release : σ → σ
  position : σ → Position
  remaining : σ → Nat
  reach : σ → Nat
  remaining_read : ∀ {s : σ} {c : Char},
    (read s).1 = .ok (some c) → remaining (read s).2 < remaining s
  remaining_mark : ∀ s : σ, remaining (mark s) = remaining s
  remaining_release : ∀ s : σ, remaining (release s) = remaining s
  reach_mark : ∀ s : σ, reach (mark s) ≤ remaining s
  reach_read : ∀ s : σ, reach (read s).2 ≤ reach s
  remaining_rewind : ∀ {s : σ}, (rewind s).1 = .ok () → remaining (rewind s).2 ≤ reach s

end Lookahead
