import Lookahead.Lexer.Tokenizer

/-!
Calls of a tokenizer one after another, whatever they answer. A call changes the
source and the counts only, and the batch of all tokens is what the calls answer
before the first of them that answers with no token.
-/
namespace Lookahead

namespace Tokenizer

variable {σ : Type} [CharSource σ]

def afterCalls (t : Tokenizer σ) : Nat → Tokenizer σ
  | 0 => t
  | n + 1 => (t.afterCalls n).next.rest

/-- The answer of the call that comes after the given number of calls. -/
def answer (t : Tokenizer σ) (n : Nat) : Except LexerError (Option Token) :=
  (t.afterCalls n).next.result

theorem afterCalls_succ (t : Tokenizer σ) (n : Nat) :
    t.afterCalls (n + 1) = t.next.rest.afterCalls n := by
  induction n with
  | zero => rfl
  | succ n ih => exact congrArg (fun u => u.next.rest) ih

theorem answer_succ (t : Tokenizer σ) (n : Nat) : t.answer (n + 1) = t.next.rest.answer n := by
  simp only [answer, afterCalls_succ]

theorem acceptors_afterCalls (t : Tokenizer σ) (calls : Nat) :
    (t.afterCalls calls).acceptors = t.acceptors := by
  induction calls with
  | zero => rfl
  | succ calls ih => exact ih

theorem preferences_afterCalls (t : Tokenizer σ) (calls : Nat) :
    (t.afterCalls calls).preferences = t.preferences := by
  induction calls with
  | zero => rfl
  | succ calls ih => exact ih

/-- The calls answer with the given tokens, and then with something else. -/
structure Yields (t : Tokenizer σ) (tokens : List Token) (failure : Option LexerError) : Prop where
  token : ∀ {front back : List Token} {x : Token}, tokens = front ++ x :: back →
    t.answer front.length = .ok (some x)
  stop : t.answer tokens.length =
    match failure with
    | none => .ok none
    | some e => .error e

theorem Yields.cons {t : Tokenizer σ} {x : Token} {tokens : List Token}
    {failure : Option LexerError} (hfirst : t.next.result = .ok (some x))
    (h : t.next.rest.Yields tokens failure) : t.Yields (x :: tokens) failure := by
  constructor
  · intro front back y hsplit
    cases front with
    | nil =>
        cases hsplit
        exact hfirst
    | cons z front =>
        rw [List.length_cons, answer_succ]
        exact h.token (List.cons.inj hsplit).2
  · rw [List.length_cons, answer_succ]
    exact h.stop

theorem yields_nil {t : Tokenizer σ} {failure : Option LexerError}
    (h : t.next.result = match failure with
      | none => .ok none
      | some e => .error e) : t.Yields [] failure := by
  refine ⟨?_, h⟩
  intro front back x hsplit
  cases front <;> cases hsplit

theorem collect_yields (tokens : List Token) (events : List Log.Event) (t : Tokenizer σ) :
    ∃ more, (t.collect tokens events).tokens = tokens.reverse ++ more ∧
      t.Yields more (t.collect tokens events).failure := by
  fun_induction collect tokens events t with
  | case1 tokens events t e rest emitted hnext =>
      exact ⟨[], by simp, yields_nil (by rw [hnext])⟩
  | case2 tokens events t rest emitted hnext =>
      exact ⟨[], by simp, yields_nil (by rw [hnext])⟩
  | case3 tokens events t x rest emitted hnext ih =>
      obtain ⟨more, htokens, hyields⟩ := ih
      refine ⟨x :: more, by simpa using htokens, .cons (by rw [hnext]) ?_⟩
      rwa [hnext]

theorem all_yields (t : Tokenizer σ) : t.Yields t.all.tokens t.all.failure := by
  obtain ⟨more, htokens, hyields⟩ := t.collect_yields [] []
  have htokens : t.all.tokens = more := htokens
  rwa [htokens]

end Tokenizer

end Lookahead
