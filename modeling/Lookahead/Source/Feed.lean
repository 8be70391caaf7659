import Lookahead.Source.Basic
import Lookahead.Text.Utf8

/-!
Bytes as a device supplies them, and the decoding of one character from them.
An attempt to read may be interrupted, which is retried at once and so cannot be
noticed, or fail, after which the next attempt goes on with what comes next; after
the last byte the device reports the end of the input, or fails and keeps failing.
The bytes of a character that turns out not to be valid, or that the device fails
to complete, are gone.
-/
namespace Lookahead

inductive Supply where
  | byte (value : UInt8)
  | interruption
  | failure (message : String)
deriving DecidableEq, Repr

inductive Ending where
  | finished
  | failing (message : String)
deriving DecidableEq, Repr

structure Feed where
  supplies : List Supply
  ending : Ending
deriving DecidableEq, Repr

namespace Feed

def ofBytes (bytes : List UInt8) : Feed := ⟨bytes.map .byte, .finished⟩

/-- A device from which nothing can be read. -/
def broken (message : String) : Feed := ⟨[], .failing message⟩

/-- What the first attempt that is not interrupted gives, with what is supplied after it. -/
def attempt : List Supply → Option (Except InputError UInt8 × List Supply)
  | [] => none
  | .byte b :: rest => some (.ok b, rest)
  | .interruption :: rest => attempt rest
  | .failure message :: rest => some (.error (.io message), rest)

def next (f : Feed) : Except InputError (Option UInt8) × Feed :=
  match attempt f.supplies with
  | some (.ok b, rest) => (.ok (some b), { f with supplies := rest })
  | some (.error e, rest) => (.error e, { f with supplies := rest })
  | none =>
      match f.ending with
      | .finished => (.ok none, { f with supplies := [] })
      | .failing message => (.error (.io message), { f with supplies := [] })

/-- The next `n` bytes; none if the input ends before them. -/
def take (f : Feed) : Nat → Except InputError (Option (List UInt8)) × Feed
  | 0 => (.ok (some []), f)
  | n + 1 =>
      match f.next with
      | (.error e, f) => (.error e, f)
      | (.ok none, f) => (.ok none, f)
      | (.ok (some b), f) =>
          match f.take n with
          | (.error e, f) => (.error e, f)
          | (.ok none, f) => (.ok none, f)
          | (.ok (some bytes), f) => (.ok (some (b :: bytes)), f)

/-- The next character. The offset is the one to report if the bytes are no
encoding of a character. -/
def nextChar (f : Feed) (offset : Nat) : Except InputError (Option Char) × Feed :=
  match f.next with
  | (.error e, f) => (.error e, f)
  | (.ok none, f) => (.ok none, f)
  | (.ok (some first), f) =>
      match Utf8.width? first with
      | none => (.error (.invalidEncoding offset), f)
      | some width =>
          match f.take (width - 1) with
          | (.error e, f) => (.error e, f)
          | (.ok none, f) => (.error (.invalidEncoding offset), f)
          | (.ok (some others), f) =>
              match Utf8.scalar? (first :: others) with
              | none => (.error (.invalidEncoding offset), f)
              | some c => (.ok (some c), f)

theorem attempt_length {supplies rest : List Supply} {outcome : Except InputError UInt8}
    (h : attempt supplies = some (outcome, rest)) : rest.length < supplies.length := by
  induction supplies with
  | nil => cases h
  | cons supply supplies ih =>
      cases supply with
      | byte _ | failure _ => cases h; simp
      | interruption => exact Nat.lt_succ_of_lt (ih h)

theorem next_length (f : Feed) : f.next.2.supplies.length ≤ f.supplies.length := by
  unfold next
  split
  · exact Nat.le_of_lt (attempt_length (by assumption))
  · exact Nat.le_of_lt (attempt_length (by assumption))
  · split <;> exact Nat.zero_le _

theorem next_length_lt {f f' : Feed} {b : UInt8} (h : f.next = (.ok (some b), f')) :
    f'.supplies.length < f.supplies.length := by
  unfold next at h
  split at h
  · cases h
    exact attempt_length (by assumption)
  · cases h
  · split at h <;> cases h

theorem take_length (n : Nat) : ∀ f : Feed, (f.take n).2.supplies.length ≤ f.supplies.length := by
  induction n with
  | zero => intro f; exact Nat.le_refl _
  | succ n ih =>
      intro f
      have hnext := next_length f
      unfold take
      split
      · simp_all
      · simp_all
      · rename_i b f' h
        have hrest := ih f'
        rw [h] at hnext
        split <;> simp_all <;> omega

theorem nextChar_length (f : Feed) (offset : Nat) :
    (f.nextChar offset).2.supplies.length ≤ f.supplies.length := by
  have hnext := next_length f
  unfold nextChar
  split
  · simp_all
  · simp_all
  · rename_i first f' h
    rw [h] at hnext
    split
    · exact hnext
    · rename_i width _
      have hrest := take_length (width - 1) f'
      split
      · simp_all; omega
      · simp_all; omega
      · split <;> simp_all <;> omega

theorem nextChar_length_lt {f : Feed} {offset : Nat} {c : Char}
    (h : (f.nextChar offset).1 = .ok (some c)) :
    (f.nextChar offset).2.supplies.length < f.supplies.length := by
  unfold nextChar at h ⊢
  split at h
  · cases h
  · cases h
  · rename_i first f' hfirst
    have hlt := next_length_lt hfirst
    split at h
    · cases h
    · rename_i width _
      have hrest := take_length (width - 1) f'
      split at h
      · cases h
      · cases h
      · rename_i others f'' htake
        rw [htake] at hrest
        split at h
        · cases h
        · simp_all; omega

end Feed

end Lookahead
