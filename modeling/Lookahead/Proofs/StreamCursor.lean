import Lookahead.Proofs.LookaheadCursor

/-!
The stream over a tokenizer, under any operations in any order. It is a cursor into
the sequence of all answers that the tokenizer gives when it is called again and
again, errors included. To peek moves past an error only, to pull moves past a token
as well, and nothing moves past the end of the input. The proper variants move past
trivia first.

The tokenizer is called once for each place that the cursor has left, and once more
if the stream has looked at the place where it stands. The events of these calls, in
order, are all that the operations emit.
-/
namespace Lookahead

inductive StreamOp where
  | peek
  | pull
  | peekProper
  | pullProper
deriving DecidableEq

namespace TokenStream

variable {τ : Type} [TokenStream τ]

def perform (s : τ) : StreamOp → Reply (Option Token) τ
  | .peek => peek s
  | .pull => pull s
  | .peekProper => peekProper s
  | .pullProper => pullProper s

theorem pullProper_of_error {s shown : τ} {e : LexerError} {events : List Log.Event}
    (h : peekProper s = ⟨.error e, shown, events⟩) :
    pullProper s = ⟨.error e, shown, events⟩ := by
  simp only [pullProper, h]

theorem pullProper_of_ok {s shown : τ} {next : Option Token} {events : List Log.Event}
    (h : peekProper s = ⟨.ok next, shown, events⟩) :
    pullProper s =
      ⟨(pull shown).result, (pull shown).rest, events ++ (pull shown).events⟩ := by
  simp only [pullProper, h]

/-- What operations answered one after another, what they left, and what they emitted. -/
structure Transcript (τ : Type) where
  answers : List (Except LexerError (Option Token))
  rest : τ
  events : List Log.Event

def performAll (s : τ) : List StreamOp → Transcript τ
  | [] => ⟨[], s, []⟩
  | op :: ops =>
      let reply := perform s op
      let later := performAll reply.rest ops
      ⟨reply.result :: later.answers, later.rest, reply.events ++ later.events⟩

end TokenStream

namespace Cursor

variable (answers : Nat → Except LexerError (Option Token))

def IsTrivia : Except LexerError (Option Token) → Prop
  | .ok (some x) => x.isTrivia = true
  | _ => False

/-- From one place to the first that holds no trivia. -/
inductive SkipsTo : Nat → Nat → Prop where
  | here {n : Nat} (h : ¬ IsTrivia (answers n)) : SkipsTo n n
  | past {n n' : Nat} (h : IsTrivia (answers n)) (hrest : SkipsTo (n + 1) n') : SkipsTo n n'

/-- The place whose answer an operation gives. -/
def Finds (n : Nat) : StreamOp → Nat → Prop
  | .peek, n' | .pull, n' => n' = n
  | .peekProper, n' | .pullProper, n' => SkipsTo answers n n'

/-- Where an operation leaves the cursor that gave the answer at the given place. -/
def leaves (op : StreamOp) (answer : Except LexerError (Option Token)) (n : Nat) : Nat :=
  match answer with
  | .error _ => n + 1
  | .ok none => n
  | .ok (some _) =>
      match op with
      | .peek | .peekProper => n
      | .pull | .pullProper => n + 1

/-- The answers that a cursor gives to a list of operations, and where it is then. -/
inductive Walk : Nat → List StreamOp → List (Except LexerError (Option Token)) → Nat → Prop where
  | nil (n : Nat) : Walk n [] [] n
  | cons {n n' last : Nat} {op : StreamOp} {ops : List StreamOp}
      {later : List (Except LexerError (Option Token))} (hfinds : Finds answers n op n')
      (hrest : Walk (leaves op (answers n') n') ops later last) :
      Walk n (op :: ops) (answers n' :: later) last

variable {answers}

theorem SkipsTo.of_end {n n' : Nat} (h : SkipsTo answers n n') (hend : answers n = .ok none) :
    n' = n := by
  cases h with
  | here => rfl
  | past htrivia _ =>
      rw [hend] at htrivia
      exact htrivia.elim

theorem Finds.of_end {n n' : Nat} {op : StreamOp} (h : Finds answers n op n')
    (hend : answers n = .ok none) : n' = n := by
  cases op with
  | peek | pull => exact h
  | peekProper | pullProper => exact SkipsTo.of_end h hend

/-- At the end of the input a cursor stays, and has only one answer. -/
theorem Walk.of_end {n last : Nat} {ops : List StreamOp}
    {given : List (Except LexerError (Option Token))} (h : Walk answers n ops given last)
    (hend : answers n = .ok none) : last = n ∧ ∀ a ∈ given, a = .ok none := by
  induction h with
  | nil n => exact ⟨rfl, by simp⟩
  | @cons n n' last op ops later hfinds hrest ih =>
      have hn' := hfinds.of_end hend
      rw [hn', hend] at ih
      obtain ⟨hlast, hlater⟩ := ih hend
      refine ⟨hlast, ?_⟩
      intro a ha
      cases ha with
      | head => rw [hn', hend]
      | tail _ ha => exact hlater a ha

theorem Walk.after_end {n last : Nat} {ops : List StreamOp}
    {front back : List (Except LexerError (Option Token))}
    (h : Walk answers n ops (front ++ .ok none :: back) last) : ∀ a ∈ back, a = .ok none := by
  generalize hgiven : front ++ .ok none :: back = given at h
  induction h generalizing front with
  | nil n => simp at hgiven
  | @cons n n' last op ops later hfinds hrest ih =>
      cases front with
      | cons a front => exact ih (List.cons.inj hgiven).2
      | nil =>
          obtain ⟨hend, rfl⟩ := List.cons.inj hgiven
          rw [← hend] at hrest
          exact (hrest.of_end hend.symm).2

/-- What a cursor has left behind is never the end of the input. -/
def Passed (answers : Nat → Except LexerError (Option Token)) (n : Nat) : Prop :=
  ∀ i < n, answers i ≠ .ok none

theorem Passed.succ {n : Nat} (h : Passed answers n) (hn : answers n ≠ .ok none) :
    Passed answers (n + 1) := by
  intro i hi
  by_cases heq : i = n
  · rw [heq]
    exact hn
  · exact h i (by omega)

theorem Passed.skipsTo {n n' : Nat} (h : Passed answers n) (hskips : SkipsTo answers n n') :
    Passed answers n' := by
  induction hskips with
  | here => exact h
  | past htrivia _ ih =>
      apply ih
      apply h.succ
      intro hend
      rw [hend] at htrivia
      exact htrivia

theorem Passed.finds {n n' : Nat} {op : StreamOp} (h : Passed answers n)
    (hfinds : Finds answers n op n') : Passed answers n' := by
  cases op with
  | peek | pull =>
      obtain rfl : n' = n := hfinds
      exact h
  | peekProper | pullProper => exact h.skipsTo hfinds

theorem Passed.leaves {n : Nat} (h : Passed answers n) (op : StreamOp) :
    Passed answers (leaves op (answers n) n) := by
  cases hanswer : answers n with
  | error e => exact h.succ (by simp [hanswer])
  | ok next =>
      cases next with
      | none => exact h
      | some x =>
          cases op with
          | peek | peekProper => exact h
          | pull | pullProper => exact h.succ (by simp [hanswer])

theorem Walk.passed {n last : Nat} {ops : List StreamOp}
    {given : List (Except LexerError (Option Token))} (h : Walk answers n ops given last)
    (hn : Passed answers n) : Passed answers last := by
  induction h with
  | nil n => exact hn
  | cons hfinds _ ih => exact ih ((hn.finds hfinds).leaves _)

end Cursor

namespace Tokenizer

variable {σ : Type} [CharSource σ]

/-- The events of the first calls, in order. -/
def emitted (t : Tokenizer σ) (calls : Nat) : List Log.Event :=
  (List.range calls).flatMap fun i => (t.afterCalls i).next.events

theorem emitted_succ (t : Tokenizer σ) (calls : Nat) :
    t.emitted (calls + 1) = t.emitted calls ++ (t.afterCalls calls).next.events := by
  simp [emitted, List.range_succ]

/-- The answers of the first calls, in order. -/
def answers (t : Tokenizer σ) (calls : Nat) : List (Except LexerError (Option Token)) :=
  (List.range calls).map t.answer

theorem answers_succ (t : Tokenizer σ) (calls : Nat) :
    t.answers (calls + 1) = t.answers calls ++ [t.answer calls] := by
  simp [answers, List.range_succ]

/-- The metrics are the record of the answers. -/
theorem metrics_afterCalls (t : Tokenizer σ) (calls : Nat) :
    (t.afterCalls calls).metrics =
      (t.answers calls).foldl (fun m a => m.record t.preferences a) t.metrics := by
  induction calls with
  | zero => rfl
  | succ calls ih =>
      rw [answers_succ, List.foldl_append, ← ih, ← t.preferences_afterCalls calls]
      rfl

def isToken : Except LexerError (Option Token) → Bool
  | .ok (some _) => true
  | _ => false

theorem total_afterCalls (t : Tokenizer σ) (calls : Nat) :
    (t.afterCalls calls).metrics.total = t.metrics.total + (t.answers calls).countP isToken := by
  induction calls with
  | zero => rfl
  | succ calls ih =>
      rw [answers_succ, List.countP_append, ← Nat.add_assoc, ← ih]
      show ((t.afterCalls calls).metrics.record _ (t.answer calls)).total = _
      cases t.answer calls with
      | error e => rfl
      | ok next => cases next <;> rfl

end Tokenizer

namespace LookaheadStream

variable {σ : Type} [CharSource σ] {t : Tokenizer σ} {place calls : Nat} {s : LookaheadStream σ}

/-- The stream stands at a place of its tokenizer's answers, after a number of calls. -/
inductive StandsAt (t : Tokenizer σ) (place : Nat) : Nat → LookaheadStream σ → Prop where
  | between : StandsAt t place place ⟨t.afterCalls place, .empty⟩
  | asked {next : Option Token} (h : t.answer place = .ok next) :
      StandsAt t place (place + 1) ⟨t.afterCalls (place + 1), .holding next⟩

theorem StandsAt.tokenizer_eq (h : StandsAt t place calls s) :
    s.tokenizer = t.afterCalls calls := by
  cases h <;> rfl

theorem StandsAt.calls_le (h : StandsAt t place calls s) : place ≤ calls ∧ calls ≤ place + 1 := by
  cases h <;> omega

/-- The stream after an operation that gave the answer at one place and left the
cursor at another. -/
structure Moved (t : Tokenizer σ) (calls place place' : Nat)
    (reply : Reply (Option Token) (LookaheadStream σ)) : Prop where
  result_eq : reply.result = t.answer place
  stands : ∃ calls', StandsAt t place' calls' reply.rest ∧
    t.emitted calls' = t.emitted calls ++ reply.events

theorem StandsAt.peek_of_ok {next : Option Token} (h : StandsAt t place calls s)
    (hanswer : t.answer place = .ok next) :
    ∃ events, TokenStream.peek s = ⟨.ok next, ⟨t.afterCalls (place + 1), .holding next⟩, events⟩ ∧
      t.emitted (place + 1) = t.emitted calls ++ events := by
  cases h with
  | between => exact ⟨_, LookaheadStream.peek_of_ok hanswer, t.emitted_succ place⟩
  | asked hasked =>
      rw [hanswer] at hasked
      cases hasked
      refine ⟨[], ?_, by simp⟩
      cases next <;> rfl

theorem StandsAt.peek_of_error {e : LexerError} (h : StandsAt t place calls s)
    (hanswer : t.answer place = .error e) :
    ∃ events, TokenStream.peek s = ⟨.error e, ⟨t.afterCalls (place + 1), .empty⟩, events⟩ ∧
      t.emitted (place + 1) = t.emitted calls ++ events := by
  cases h with
  | between => exact ⟨_, LookaheadStream.peek_of_error hanswer, t.emitted_succ place⟩
  | asked hasked =>
      rw [hanswer] at hasked
      cases hasked

theorem StandsAt.peek (h : StandsAt t place calls s) :
    Moved t calls place (Cursor.leaves .peek (t.answer place) place) (TokenStream.peek s) := by
  cases hanswer : t.answer place with
  | error e =>
      obtain ⟨events, hpeek, hevents⟩ := h.peek_of_error hanswer
      rw [hpeek]
      exact ⟨hanswer.symm, place + 1, .between, hevents⟩
  | ok next =>
      obtain ⟨events, hpeek, hevents⟩ := h.peek_of_ok hanswer
      rw [hpeek]
      refine ⟨hanswer.symm, place + 1, ?_, hevents⟩
      cases next with
      | none | some x => exact .asked hanswer

/-- To pull is to peek, and to drop a token from the buffer. -/
theorem pull_of_peek_some {x : Token} {shown : LookaheadStream σ} {events : List Log.Event}
    (h : TokenStream.peek s = ⟨.ok (some x), shown, events⟩) :
    TokenStream.pull s = ⟨.ok (some x), { shown with buffer := .empty }, events⟩ := by
  have hpeek : s.peek = ⟨.ok (some x), shown, events⟩ := h
  simp only [TokenStream.pull, pull, hpeek]

theorem pull_of_peek_other {result : Except LexerError (Option Token)}
    {shown : LookaheadStream σ} {events : List Log.Event}
    (h : TokenStream.peek s = ⟨result, shown, events⟩) (hother : ∀ x, result ≠ .ok (some x)) :
    TokenStream.pull s = ⟨result, shown, events⟩ := by
  have hpeek : s.peek = ⟨result, shown, events⟩ := h
  simp only [TokenStream.pull, pull, hpeek]
  split
  · rename_i x _ _ hreply
    cases hreply
    exact absurd rfl (hother x)
  · rfl

theorem StandsAt.pull (h : StandsAt t place calls s) :
    Moved t calls place (Cursor.leaves .pull (t.answer place) place) (TokenStream.pull s) := by
  cases hanswer : t.answer place with
  | error e =>
      obtain ⟨events, hpeek, hevents⟩ := h.peek_of_error hanswer
      rw [pull_of_peek_other hpeek (by simp)]
      exact ⟨hanswer.symm, place + 1, .between, hevents⟩
  | ok next =>
      obtain ⟨events, hpeek, hevents⟩ := h.peek_of_ok hanswer
      cases next with
      | none =>
          rw [pull_of_peek_other hpeek (by simp)]
          exact ⟨hanswer.symm, place + 1, .asked hanswer, hevents⟩
      | some x =>
          rw [pull_of_peek_some hpeek]
          exact ⟨hanswer.symm, place + 1, .between, hevents⟩

theorem StandsAt.skip (h : StandsAt t place calls s) (before : List Log.Event) :
    ∃ place' events, Cursor.SkipsTo t.answer place place' ∧
      (TokenStream.skip before s).events = before.reverse ++ events ∧
      Moved t calls place' (Cursor.leaves .peek (t.answer place') place')
        ⟨(TokenStream.skip before s).result, (TokenStream.skip before s).rest, events⟩ := by
  fun_induction TokenStream.skip before s generalizing place calls with
  | case1 before s x shown emitted hshown htrivia e rest more htaken =>
      have hpull := @TokenStream.pull_peek _ _ s (some x) (by rw [hshown])
      rw [hshown, htaken] at hpull
      cases hpull
  | case2 before s x shown emitted hshown htrivia taken rest more htaken ih =>
      have hanswer : t.answer place = .ok (some x) := by
        rw [← h.peek.result_eq, hshown]
      obtain ⟨events, hpeek, hevents⟩ := h.peek_of_ok hanswer
      rw [hshown] at hpeek
      cases hpeek
      cases htaken
      -- the token is gone from the buffer, and the stream stands at the next place
      have hbetween : StandsAt t (place + 1) (place + 1)
          (⟨t.afterCalls (place + 1), .empty⟩ : LookaheadStream σ) := .between
      obtain ⟨place', later, hskips, hlater, hmoved⟩ := ih hbetween
      refine ⟨place', emitted ++ later, .past ?_ hskips, ?_, hmoved.result_eq, ?_⟩
      · rw [hanswer]
        exact htrivia
      · rw [hlater]
        simp
      · obtain ⟨calls', hstands, hcalls⟩ := hmoved.stands
        exact ⟨calls', hstands, by rw [hcalls, hevents, List.append_assoc]⟩
  | case3 before s x shown emitted hshown htrivia =>
      have hpeek := h.peek
      rw [hshown] at hpeek
      refine ⟨place, emitted, .here ?_, by simp, hpeek⟩
      rw [← hpeek.result_eq]
      exact htrivia
  | case4 before s result shown emitted hother hshown =>
      have hpeek := h.peek
      rw [hshown] at hpeek
      refine ⟨place, emitted, .here ?_, by simp, hpeek⟩
      intro htrivia
      rw [← hpeek.result_eq] at htrivia
      cases result with
      | error e => exact htrivia
      | ok next =>
          cases next with
          | none => exact htrivia
          | some x => exact hother x rfl

theorem StandsAt.peekProper (h : StandsAt t place calls s) :
    ∃ place', Cursor.SkipsTo t.answer place place' ∧
      Moved t calls place' (Cursor.leaves .peekProper (t.answer place') place')
        (TokenStream.peekProper s) := by
  obtain ⟨place', events, hskips, hevents, hmoved⟩ := h.skip []
  refine ⟨place', hskips, hmoved.result_eq, ?_⟩
  obtain ⟨calls', hstands, hcalls⟩ := hmoved.stands
  refine ⟨calls', hstands, ?_⟩
  rw [hcalls, TokenStream.peekProper, hevents]
  rfl

theorem StandsAt.pullProper (h : StandsAt t place calls s) :
    ∃ place', Cursor.SkipsTo t.answer place place' ∧
      Moved t calls place' (Cursor.leaves .pullProper (t.answer place') place')
        (TokenStream.pullProper s) := by
  obtain ⟨place', hskips, hmoved⟩ := h.peekProper
  refine ⟨place', hskips, ?_⟩
  cases hpeek : TokenStream.peekProper s with
  | mk result shown events =>
      rw [hpeek] at hmoved
      obtain ⟨calls', hstands, hcalls⟩ := hmoved.stands
      have hresult : result = t.answer place' := hmoved.result_eq
      rw [← hresult] at hstands
      cases result with
      | error e =>
          rw [TokenStream.pullProper_of_error hpeek, ← hresult]
          exact ⟨hresult, calls', hstands, hcalls⟩
      | ok next =>
          have hplace : Cursor.leaves .peekProper (.ok next) place' = place' := by
            cases next <;> rfl
          rw [hplace] at hstands
          have hpull := hstands.pull
          rw [TokenStream.pullProper_of_ok hpeek]
          refine ⟨hpull.result_eq, ?_⟩
          obtain ⟨calls'', hstands', hcalls'⟩ := hpull.stands
          exact ⟨calls'', hstands', by rw [hcalls', hcalls, List.append_assoc]⟩

theorem StandsAt.perform (h : StandsAt t place calls s) (op : StreamOp) :
    ∃ place', Cursor.Finds t.answer place op place' ∧
      Moved t calls place' (Cursor.leaves op (t.answer place') place')
        (TokenStream.perform s op) := by
  cases op with
  | peek => exact ⟨place, rfl, h.peek⟩
  | pull => exact ⟨place, rfl, h.pull⟩
  | peekProper => exact h.peekProper
  | pullProper => exact h.pullProper

theorem StandsAt.performAll (h : StandsAt t place calls s) (ops : List StreamOp) :
    ∃ place' calls',
      Cursor.Walk t.answer place ops (TokenStream.performAll s ops).answers place' ∧
      StandsAt t place' calls' (TokenStream.performAll s ops).rest ∧
      t.emitted calls' = t.emitted calls ++ (TokenStream.performAll s ops).events := by
  induction ops generalizing place calls s with
  | nil => exact ⟨place, calls, .nil place, h, by simp [TokenStream.performAll]⟩
  | cons op ops ih =>
      obtain ⟨found, hfinds, hmoved⟩ := h.perform op
      obtain ⟨middle, hstands, hmiddle⟩ := hmoved.stands
      obtain ⟨place', calls', hwalk, hlast, hcalls⟩ := ih hstands
      refine ⟨place', calls', ?_, hlast, ?_⟩
      · simp only [TokenStream.performAll]
        rw [hmoved.result_eq]
        exact .cons hfinds hwalk
      · rw [hcalls, hmiddle, List.append_assoc]
        rfl

/-- A stream that was taken through some operations is a cursor over the answers that
its tokenizer gives: it loses, repeats and reorders nothing. -/
structure IsCursor (t : Tokenizer σ) (ops : List StreamOp)
    (transcript : TokenStream.Transcript (LookaheadStream σ)) (place calls : Nat) : Prop where
  walk : Cursor.Walk t.answer 0 ops transcript.answers place
  /-- Once the end of the input was answered nothing else is. -/
  ending : ∀ {front back : List (Except LexerError (Option Token))},
    transcript.answers = front ++ .ok none :: back → ∀ a ∈ back, a = .ok none
  tokenizer : transcript.rest.tokenizer = t.afterCalls calls
  /-- Every place that was left was asked for, and at most the next one beyond. -/
  reach : place ≤ calls ∧ calls ≤ place + 1
  events : transcript.events = t.emitted calls
  /-- No call comes after the one that came to the end of the input. -/
  last : ∀ i < calls, t.answer i = .ok none → i + 1 = calls
  metrics : transcript.rest.tokenizer.metrics =
    (t.answers calls).foldl (fun m a => m.record t.preferences a) t.metrics
  total : transcript.rest.tokenizer.metrics.total =
    t.metrics.total + (t.answers calls).countP Tokenizer.isToken

/-- The law of the lookahead stream, for every tokenizer and all operations in every
order, after errors and after the end of the input too. -/
theorem performAll_isCursor (t : Tokenizer σ) (ops : List StreamOp) :
    ∃ place calls, IsCursor t ops
      (TokenStream.performAll (⟨t, .empty⟩ : LookaheadStream σ) ops) place calls := by
  have hstart : StandsAt t 0 0 (⟨t, .empty⟩ : LookaheadStream σ) := .between
  obtain ⟨place, calls, hwalk, hstands, hevents⟩ := hstart.performAll ops
  have htokenizer := hstands.tokenizer_eq
  refine ⟨place, calls, hwalk, ?_, htokenizer, hstands.calls_le, hevents.symm, ?_, ?_, ?_⟩
  · intro front back hsplit
    rw [hsplit] at hwalk
    exact hwalk.after_end
  · intro i hi hend
    have hpassed := hwalk.passed (by simp [Cursor.Passed])
    have hplace : place ≤ i := Nat.not_lt.mp fun hlt => hpassed i hlt hend
    have hcalls := hstands.calls_le.2
    omega
  · rw [htokenizer, t.metrics_afterCalls]
  · rw [htokenizer, t.total_afterCalls]

end LookaheadStream

end Lookahead
