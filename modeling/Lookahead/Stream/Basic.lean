import Lookahead.Lexer.Tokenizer

/-!
Token streams with one token of lookahead. `peek` shows the next token and
`pull` takes it; at the end of the input both answer none. The proper variants
first take away the trivia that stands before the next token. The count
`remaining` bounds the tokens to come.
-/
namespace Lookahead

open Log (Event)

class TokenStream (τ : Type) where
  peek : τ → Reply (Option Token) τ
  pull : τ → Reply (Option Token) τ
  remaining : τ → Nat
  /-- What was shown is what is taken. -/
  pull_peek : ∀ {s : τ} {next : Option Token}, (peek s).result = .ok next →
    (pull (peek s).rest).result = .ok next
  /-- A token that was shown and then taken is gone. -/
  remaining_pull_peek : ∀ {s : τ} {t : Token}, (peek s).result = .ok (some t) →
    remaining (pull (peek s).rest).rest < remaining s

namespace TokenStream

variable {τ : Type} [TokenStream τ]

/-- Takes trivia away and shows the token after it; events are kept newest first. -/
def skip (events : List Event) (s : τ) : Reply (Option Token) τ :=
  match _hshown : peek s with
  | ⟨.ok (some t), shown, emitted⟩ =>
      if t.isTrivia then
        match _htaken : pull shown with
        | ⟨.error e, rest, more⟩ =>
            ⟨.error e, rest, (more.reverseAux (emitted.reverseAux events)).reverse⟩
        | ⟨.ok _, rest, more⟩ => skip (more.reverseAux (emitted.reverseAux events)) rest
      else ⟨.ok (some t), shown, (emitted.reverseAux events).reverse⟩
  | ⟨result, shown, emitted⟩ => ⟨result, shown, (emitted.reverseAux events).reverse⟩
termination_by remaining s
decreasing_by
  have hlt := @remaining_pull_peek τ _ s t (by rw [_hshown])
  rwa [_hshown, _htaken] at hlt

def peekProper (s : τ) : Reply (Option Token) τ := skip [] s

def pullProper (s : τ) : Reply (Option Token) τ :=
  match peekProper s with
  | ⟨.error e, shown, events⟩ => ⟨.error e, shown, events⟩
  | ⟨.ok _, shown, events⟩ =>
      match pull shown with
      | ⟨result, rest, more⟩ => ⟨result, rest, events ++ more⟩

theorem pull_skip (events : List Event) (s : τ) {next : Option Token}
    (h : (skip events s).result = .ok next) :
    (pull (skip events s).rest).result = .ok next ∧
      (next.isSome → remaining (pull (skip events s).rest).rest < remaining s) := by
  fun_induction skip events s with
  | case1 _ s t shown _ hshown _ e rest _ htaken => cases h
  | case2 _ s t shown _ hshown _ _ rest _ htaken ih =>
      have hlt := @remaining_pull_peek τ _ s t (by rw [hshown])
      rw [hshown, htaken] at hlt
      have hrest := ih h
      exact ⟨hrest.1, fun hsome => Nat.lt_trans (hrest.2 hsome) hlt⟩
  | case3 _ s t shown _ hshown _ =>
      cases h
      have hpull := @pull_peek τ _ s (some t) (by rw [hshown])
      have hlt := @remaining_pull_peek τ _ s t (by rw [hshown])
      rw [hshown] at hpull hlt
      exact ⟨hpull, fun _ => hlt⟩
  | case4 _ s result shown _ _ hshown =>
      have hpull := @pull_peek τ _ s next (by rw [hshown]; exact h)
      rw [hshown] at hpull
      refine ⟨hpull, fun hsome => ?_⟩
      cases next with
      | none => cases hsome
      | some t =>
          have hlt := @remaining_pull_peek τ _ s t (by rw [hshown]; exact h)
          rwa [hshown] at hlt

theorem remaining_pullProper {s : τ} {t : Token} (h : (pullProper s).result = .ok (some t)) :
    remaining (pullProper s).rest < remaining s := by
  unfold pullProper at h ⊢
  split
  · rename_i hshown
    simp [hshown] at h
  · rename_i next shown events hshown
    have hskip := @pull_skip τ _ [] s next (by rw [← peekProper, hshown])
    rw [← peekProper, hshown] at hskip
    simp only [hshown, hskip.1] at h
    cases h
    exact hskip.2 rfl

/-- Takes proper tokens as long as there are any. The tokens and events found so
far are kept newest first. -/
def collectProper (tokens : List Token) (events : List Event) (s : τ) : Batch τ :=
  match _h : pullProper s with
  | ⟨.error e, rest, emitted⟩ =>
      ⟨tokens.reverse, some e, rest, (emitted.reverseAux events).reverse⟩
  | ⟨.ok none, rest, emitted⟩ =>
      ⟨tokens.reverse, none, rest, (emitted.reverseAux events).reverse⟩
  | ⟨.ok (some t), rest, emitted⟩ =>
      collectProper (t :: tokens) (emitted.reverseAux events) rest
termination_by remaining s
decreasing_by
  have hlt := @remaining_pullProper τ _ s t (by rw [_h])
  rwa [_h] at hlt

/-- The tokens of a stream without its trivia. -/
def allProper (s : τ) : Batch τ := collectProper [] [] s

end TokenStream

/-- A stream over tokens that are already at hand. -/
structure TokenQueue where
  tokens : List Token
deriving DecidableEq, Repr

namespace TokenQueue

def peek (q : TokenQueue) : Reply (Option Token) TokenQueue := ⟨.ok q.tokens.head?, q, []⟩

def pull (q : TokenQueue) : Reply (Option Token) TokenQueue :=
  ⟨.ok q.tokens.head?, ⟨q.tokens.tail⟩, []⟩

instance : TokenStream TokenQueue where
  peek := peek
  pull := pull
  remaining q := q.tokens.length
  pull_peek := id
  remaining_pull_peek := by
    intro q t h
    cases q with
    | mk tokens => cases tokens <;> simp_all [peek, pull]

end TokenQueue

/-- What a stream over a tokenizer knows about its next result. -/
inductive Buffer where
  | empty
  | token (value : Token)
  | endOfInput
deriving DecidableEq, Repr

/-- The buffer that keeps a result. -/
def Buffer.holding : Option Token → Buffer
  | some t => .token t
  | none => .endOfInput

/-- A stream over a tokenizer. The tokenizer is asked for a token only when one
is needed, and never again once it has come to the end of the input; an error is
not kept. -/
structure LookaheadStream (σ : Type) where
  tokenizer : Tokenizer σ
  buffer : Buffer := .empty

namespace LookaheadStream

variable {σ : Type} [CharSource σ]

def peek (s : LookaheadStream σ) : Reply (Option Token) (LookaheadStream σ) :=
  match s.buffer with
  | .token t => ⟨.ok (some t), s, []⟩
  | .endOfInput => ⟨.ok none, s, []⟩
  | .empty =>
      match s.tokenizer.next with
      | ⟨.error e, rest, events⟩ => ⟨.error e, ⟨rest, .empty⟩, events⟩
      | ⟨.ok next, rest, events⟩ => ⟨.ok next, ⟨rest, .holding next⟩, events⟩

def pull (s : LookaheadStream σ) : Reply (Option Token) (LookaheadStream σ) :=
  match s.peek with
  | ⟨.ok (some t), shown, events⟩ => ⟨.ok (some t), { shown with buffer := .empty }, events⟩
  | reply => reply

def remaining (s : LookaheadStream σ) : Nat :=
  match s.buffer with
  | .token _ => s.tokenizer.remaining + 1
  | _ => s.tokenizer.remaining

theorem peek_empty {s : LookaheadStream σ} {next : Option Token} (hbuffer : s.buffer = .empty)
    (h : s.peek.result = .ok next) :
    s.tokenizer.next.result = .ok next ∧
      s.peek.rest = ⟨s.tokenizer.next.rest, .holding next⟩ := by
  unfold peek at h ⊢
  simp only [hbuffer] at h ⊢
  cases hnext : s.tokenizer.next with
  | mk result rest events =>
      cases result <;> simp_all

theorem pull_peek {s : LookaheadStream σ} {next : Option Token}
    (h : s.peek.result = .ok next) : s.peek.rest.pull.result = .ok next := by
  cases hbuffer : s.buffer with
  | token value =>
      have hnext : next = some value := by simpa [peek, hbuffer, eq_comm] using h
      simp [peek, pull, hbuffer, hnext]
  | endOfInput =>
      have hnext : next = none := by simpa [peek, hbuffer, eq_comm] using h
      simp [peek, pull, hbuffer, hnext]
  | empty =>
      rw [(peek_empty hbuffer h).2]
      cases next <;> simp [peek, pull, Buffer.holding]

theorem remaining_pull_peek {s : LookaheadStream σ} {t : Token}
    (h : s.peek.result = .ok (some t)) : s.peek.rest.pull.rest.remaining < s.remaining := by
  cases hbuffer : s.buffer with
  | token value => simp [peek, pull, remaining, hbuffer]
  | endOfInput => simp [peek, hbuffer] at h
  | empty =>
      have hlt := Tokenizer.remaining_next (peek_empty hbuffer h).1
      rw [(peek_empty hbuffer h).2]
      simpa [peek, pull, remaining, hbuffer, Buffer.holding] using hlt

instance : TokenStream (LookaheadStream σ) where
  peek := peek
  pull := pull
  remaining := remaining
  pull_peek := pull_peek
  remaining_pull_peek := remaining_pull_peek

end LookaheadStream

end Lookahead
