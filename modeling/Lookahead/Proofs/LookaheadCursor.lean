import Lookahead.Proofs.Calls
import Lookahead.Proofs.ProperTokens

/-!
The stream over a tokenizer as a cursor into the tokens that the tokenizer yields.
Between two tokens its buffer is empty; once it was asked, the buffer holds the token
that it faces, or the end of the input. To look ahead makes at most one call, and the
number of calls is known from the place of the cursor.
-/
namespace Lookahead

namespace TokenStream

variable {τ : Type} [TokenStream τ] {s shown rest : τ} {x : Token}
  {events emitted more : List Log.Event}

theorem skip_of_trivia {taken : Option Token} (hpeek : peek s = ⟨.ok (some x), shown, emitted⟩)
    (htrivia : x.isTrivia = true) (hpull : pull shown = ⟨.ok taken, rest, more⟩) :
    skip events s = skip (more.reverseAux (emitted.reverseAux events)) rest := by
  rw [skip]
  split
  · rename_i y shown' emitted' hpeek'
    rw [hpeek] at hpeek'
    cases hpeek'
    rw [if_pos htrivia]
    split
    · rename_i hpull'
      rw [hpull] at hpull'
      cases hpull'
    · rename_i hpull'
      rw [hpull] at hpull'
      cases hpull'
      rfl
  · rename_i hnone hpeek'
    rw [hpeek] at hpeek'
    cases hpeek'
    exact absurd rfl (hnone x)

theorem skip_of_other {result : Except LexerError (Option Token)}
    (hpeek : peek s = ⟨result, shown, emitted⟩)
    (hother : ∀ y, result = .ok (some y) → y.isTrivia = false) :
    skip events s = ⟨result, shown, (emitted.reverseAux events).reverse⟩ := by
  rw [skip]
  split
  · rename_i y shown' emitted' hpeek'
    rw [hpeek] at hpeek'
    cases hpeek'
    rw [if_neg (by simp [hother y rfl])]
  · rename_i hpeek'
    rw [hpeek] at hpeek'
    cases hpeek'
    rfl

end TokenStream

namespace LookaheadStream

variable {σ : Type} [CharSource σ] {t : Tokenizer σ} {failure : Option LexerError}
  {front back : List Token} {s : LookaheadStream σ}

theorem peek_of_ok {u : Tokenizer σ} {next : Option Token} (h : u.next.result = .ok next) :
    TokenStream.peek (⟨u, .empty⟩ : LookaheadStream σ) =
      ⟨.ok next, ⟨u.next.rest, .holding next⟩, u.next.events⟩ := by
  simp only [TokenStream.peek, peek]
  cases hnext : u.next with
  | mk result rest events =>
      rw [hnext] at h
      cases h
      rfl

theorem peek_of_error {u : Tokenizer σ} {e : LexerError} (h : u.next.result = .error e) :
    TokenStream.peek (⟨u, .empty⟩ : LookaheadStream σ) =
      ⟨.error e, ⟨u.next.rest, .empty⟩, u.next.events⟩ := by
  simp only [TokenStream.peek, peek]
  cases hnext : u.next with
  | mk result rest events =>
      rw [hnext] at h
      cases h
      rfl

/-- The stream has been asked for what comes after the front tokens. -/
def facing (t : Tokenizer σ) (front back : List Token) : LookaheadStream σ :=
  ⟨t.afterCalls (front.length + 1), .holding back.head?⟩

/-- The stream stands after the front tokens and before the others. -/
inductive Stands (t : Tokenizer σ) (failure : Option LexerError) (front : List Token) :
    List Token → LookaheadStream σ → Prop where
  | between (back : List Token) : Stands t failure front back ⟨t.afterCalls front.length, .empty⟩
  | asked {back : List Token} (h : back ≠ [] ∨ failure = none) :
      Stands t failure front back (facing t front back)

theorem answer_of_supplied (hyields : t.Yields (front ++ back) failure)
    (hsupplied : back ≠ [] ∨ failure = none) : t.answer front.length = .ok back.head? := by
  cases back with
  | nil =>
      have hstop := hyields.stop
      rw [hsupplied.resolve_left (absurd rfl), List.append_nil] at hstop
      exact hstop
  | cons x back => exact hyields.token rfl

theorem Stands.peek (h : Stands t failure front back s)
    (hyields : t.Yields (front ++ back) failure) (hsupplied : back ≠ [] ∨ failure = none) :
    ∃ events, TokenStream.peek s = ⟨.ok back.head?, facing t front back, events⟩ := by
  cases h with
  | asked =>
      refine ⟨[], ?_⟩
      cases back <;> rfl
  | between => exact ⟨_, peek_of_ok (answer_of_supplied hyields hsupplied)⟩

theorem pull_facing_nil (t : Tokenizer σ) (front : List Token) :
    TokenStream.pull (facing t front []) = ⟨.ok none, facing t front [], []⟩ := rfl

theorem pull_facing_cons (t : Tokenizer σ) (front back : List Token) (x : Token) :
    TokenStream.pull (facing t front (x :: back)) =
      ⟨.ok (some x), ⟨t.afterCalls (front ++ [x]).length, .empty⟩, []⟩ := by
  rw [List.length_append]
  rfl

theorem Stands.skip (h : Stands t failure front back s)
    (hyields : t.Yields (front ++ back) failure)
    (hsupplied : dropTrivia back ≠ [] ∨ failure = none) (events : List Log.Event) :
    ∃ front' emitted, front' ++ dropTrivia back = front ++ back ∧
      TokenStream.skip events s =
        ⟨.ok (dropTrivia back).head?, facing t front' (dropTrivia back), emitted⟩ := by
  induction back generalizing front s events with
  | nil =>
      obtain ⟨emitted, hpeek⟩ := h.peek hyields hsupplied
      exact ⟨front, _, rfl, TokenStream.skip_of_other hpeek (by simp [dropTrivia])⟩
  | cons x back ih =>
      obtain ⟨emitted, hpeek⟩ := h.peek hyields (Or.inl (List.cons_ne_nil x back))
      cases htrivia : x.isTrivia with
      | true =>
          have hdrop : dropTrivia (x :: back) = dropTrivia back := by
            simp [dropTrivia, htrivia]
          have hassoc : front ++ x :: back = front ++ [x] ++ back := by simp
          rw [hdrop] at hsupplied ⊢
          rw [hassoc] at hyields ⊢
          rw [TokenStream.skip_of_trivia hpeek htrivia (pull_facing_cons t front back x)]
          exact ih (.between back) hyields hsupplied _
      | false =>
          have hdrop : dropTrivia (x :: back) = x :: back := by
            simp [dropTrivia, htrivia]
          rw [hdrop]
          refine ⟨front, _, rfl, TokenStream.skip_of_other hpeek ?_⟩
          intro y hy
          cases hy
          exact htrivia

theorem Stands.skip_failure {e : LexerError} (h : Stands t (some e) front back s)
    (hyields : t.Yields (front ++ back) (some e)) (hdry : dropTrivia back = [])
    (events : List Log.Event) :
    ∃ rest emitted, TokenStream.skip events s = ⟨.error e, rest, emitted⟩ := by
  induction back generalizing front s events with
  | nil =>
      cases h with
      | asked hsupplied => simp at hsupplied
      | between =>
          have hstop := hyields.stop
          rw [List.append_nil] at hstop
          exact ⟨_, _, TokenStream.skip_of_other (peek_of_error hstop) (by simp)⟩
  | cons x back ih =>
      obtain ⟨emitted, hpeek⟩ := h.peek hyields (Or.inl (List.cons_ne_nil x back))
      have htrivia : x.isTrivia = true := by
        cases hx : x.isTrivia with
        | true => rfl
        | false => simp [dropTrivia, hx] at hdry
      have hdrop : dropTrivia (x :: back) = dropTrivia back := by
        simp [dropTrivia, htrivia]
      have hassoc : front ++ x :: back = front ++ [x] ++ back := by simp
      rw [hdrop] at hdry
      rw [hassoc] at hyields
      rw [TokenStream.skip_of_trivia hpeek htrivia (pull_facing_cons t front back x)]
      exact ih (.between back) hyields hdry _

theorem Stands.pullProper_cons {x : Token} {rest : List Token}
    (h : Stands t failure front back s) (hyields : t.Yields (front ++ back) failure)
    (hback : dropTrivia back = x :: rest) :
    ∃ front' emitted, front' ++ x :: rest = front ++ back ∧
      TokenStream.pullProper s =
        ⟨.ok (some x), ⟨t.afterCalls (front' ++ [x]).length, .empty⟩, emitted⟩ := by
  obtain ⟨front', emitted, hfront, hskip⟩ := h.skip hyields (Or.inl (by simp [hback])) []
  rw [hback] at hfront hskip
  refine ⟨front', emitted ++ [], hfront, ?_⟩
  simp only [TokenStream.pullProper, TokenStream.peekProper, hskip, pull_facing_cons]

theorem Stands.pullProper_nil (h : Stands t none front back s)
    (hyields : t.Yields (front ++ back) none) (hback : dropTrivia back = []) :
    ∃ emitted, TokenStream.pullProper s = ⟨.ok none, facing t (front ++ back) [], emitted⟩ := by
  obtain ⟨front', emitted, hfront, hskip⟩ := h.skip hyields (Or.inr rfl) []
  rw [hback, List.append_nil] at hfront
  rw [hback, hfront] at hskip
  refine ⟨emitted ++ [], ?_⟩
  simp only [TokenStream.pullProper, TokenStream.peekProper, hskip, List.head?_nil,
    pull_facing_nil]

theorem Stands.pullProper_failure {e : LexerError} (h : Stands t (some e) front back s)
    (hyields : t.Yields (front ++ back) (some e)) (hdry : dropTrivia back = []) :
    ∃ rest emitted, TokenStream.pullProper s = ⟨.error e, rest, emitted⟩ := by
  obtain ⟨rest, emitted, hskip⟩ := h.skip_failure hyields hdry []
  refine ⟨rest, emitted, ?_⟩
  simp only [TokenStream.pullProper, TokenStream.peekProper, hskip]

end LookaheadStream

end Lookahead
