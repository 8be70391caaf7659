import Lookahead.Proofs.ProperTokens
import Lookahead.Proofs.SortedEntries
import Lookahead.Proofs.StreamCursor
import Mathlib.Data.List.Induction

/-!
What a tokenizer has counted after some tokens: the tokens, those that are trivia, the
characters, the longest token, and the tokens of each class that is not trivia. As long
as the calls answer with tokens, these are the counts of a tokenizer that started from
nothing; the call that comes to the end of the input changes none of them.
-/
namespace Lookahead

namespace LexicalMetrics

variable {preferences : LexicalPreferences}

/-- The counts after some tokens. -/
def ofTokens (preferences : LexicalPreferences) (tokens : List Token) : LexicalMetrics :=
  tokens.foldl (fun m x => m.recordToken preferences x) {}

theorem ofTokens_snoc (preferences : LexicalPreferences) (tokens : List Token) (x : Token) :
    ofTokens preferences (tokens ++ [x]) = (ofTokens preferences tokens).recordToken preferences x :=
  List.foldl_append

theorem total_ofTokens (preferences : LexicalPreferences) (tokens : List Token) :
    (ofTokens preferences tokens).total = tokens.length := by
  induction tokens using List.reverseRecOn with
  | nil => rfl
  | append_singleton tokens x ih => simp [ofTokens_snoc, recordToken, ih]

theorem errors_ofTokens (preferences : LexicalPreferences) (tokens : List Token) :
    (ofTokens preferences tokens).errors = 0 := by
  induction tokens using List.reverseRecOn with
  | nil => rfl
  | append_singleton tokens x ih => simp [ofTokens_snoc, recordToken, ih]

theorem trivia_ofTokens (preferences : LexicalPreferences) (tokens : List Token) :
    (ofTokens preferences tokens).trivia = tokens.countP Token.isTrivia := by
  induction tokens using List.reverseRecOn with
  | nil => rfl
  | append_singleton tokens x ih =>
      simp only [ofTokens_snoc, recordToken, ih, List.countP_append, List.countP_singleton]
      cases x.isTrivia <;> rfl

theorem chars_ofTokens (preferences : LexicalPreferences) (tokens : List Token) :
    (ofTokens preferences tokens).chars = (tokens.flatMap fun x => x.value.toList).length := by
  induction tokens using List.reverseRecOn with
  | nil => rfl
  | append_singleton tokens x ih =>
      simp [ofTokens_snoc, recordToken, ih, String.length_toList]

/-- The length of the longest token, or zero if there is none. -/
theorem longest_ofTokens (preferences : LexicalPreferences) (tokens : List Token) :
    (∀ x ∈ tokens, x.value.length ≤ (ofTokens preferences tokens).longest) ∧
      ((ofTokens preferences tokens).longest = 0 ∨
        ∃ x ∈ tokens, x.value.length = (ofTokens preferences tokens).longest) := by
  induction tokens using List.reverseRecOn with
  | nil => exact ⟨by simp, Or.inl rfl⟩
  | append_singleton tokens x ih =>
      obtain ⟨hle, hreached⟩ := ih
      have hlongest : (ofTokens preferences (tokens ++ [x])).longest =
          max (ofTokens preferences tokens).longest x.value.length := by
        rw [ofTokens_snoc]
        rfl
      rw [hlongest]
      constructor
      · intro y hy
        cases List.mem_append.mp hy with
        | inl hy => exact Nat.le_trans (hle y hy) (Nat.le_max_left _ _)
        | inr hy =>
            rw [List.mem_singleton.mp hy]
            exact Nat.le_max_right _ _
      · by_cases hmore : (ofTokens preferences tokens).longest ≤ x.value.length
        · exact Or.inr ⟨x, by simp, (Nat.max_eq_right hmore).symm⟩
        · rw [Nat.max_eq_left (by omega)]
          refine hreached.imp_right ?_
          rintro ⟨y, hy, hlength⟩
          exact ⟨y, List.mem_append_left _ hy, hlength⟩

theorem proper_ofTokens (preferences : LexicalPreferences) (tokens : List Token) :
    (ofTokens preferences tokens).trivia ≤ (ofTokens preferences tokens).total ∧
      (ofTokens preferences tokens).proper = (Lookahead.proper tokens).length := by
  have hsplit : tokens.length =
      tokens.countP Token.isTrivia + tokens.countP fun x => !x.isTrivia := by
    simpa using List.length_eq_countP_add_countP Token.isTrivia
  rw [proper, total_ofTokens, trivia_ofTokens, Lookahead.proper, ← List.countP_eq_length_filter]
  omega

/-- The number of the tokens of a class. -/
def classCount (tokens : List Token) (lexClass : String) : Nat :=
  tokens.countP fun x => x.lexClass = lexClass

theorem byClass_snoc_of_trivia {x : Token} (h : x.isTrivia = true) (tokens : List Token) :
    (ofTokens preferences (tokens ++ [x])).byClass = (ofTokens preferences tokens).byClass := by
  simp [ofTokens_snoc, recordToken, h]

theorem byClass_snoc_of_proper {x : Token} (h : x.isTrivia = false)
    (hcollect : preferences.collectClassMetrics = true) (tokens : List Token) :
    (ofTokens preferences (tokens ++ [x])).byClass =
      (ofTokens preferences tokens).countClass x.lexClass := by
  simp [ofTokens_snoc, recordToken, h, hcollect]

theorem byClass_of_not_collected (hcollect : preferences.collectClassMetrics = false)
    (tokens : List Token) : (ofTokens preferences tokens).byClass = {} := by
  induction tokens using List.reverseRecOn with
  | nil => rfl
  | append_singleton tokens x ih => simp [ofTokens_snoc, recordToken, hcollect, ih]

section Collected

variable (hcollect : preferences.collectClassMetrics = true) (tokens : List Token)
include hcollect

theorem ordered_byClass : (ofTokens preferences tokens).byClass.Ordered := by
  induction tokens using List.reverseRecOn with
  | nil => exact SortedMap.ordered_empty
  | append_singleton tokens x ih =>
      cases htrivia : x.isTrivia with
      | true =>
          rw [byClass_snoc_of_trivia htrivia]
          exact ih
      | false =>
          rw [byClass_snoc_of_proper htrivia hcollect]
          exact ih.insert _ _

/-- Every class but that of the trivia is mapped to the number of its tokens, if there
are any. -/
theorem get?_byClass (lexClass : String) :
    (ofTokens preferences tokens).byClass.get? lexClass =
      if lexClass ≠ triviaClass ∧ 0 < classCount tokens lexClass then
        some (classCount tokens lexClass)
      else none := by
  induction tokens using List.reverseRecOn with
  | nil => simp [ofTokens, classCount, SortedMap.get?_empty]
  | append_singleton tokens x ih =>
      have hcount : classCount (tokens ++ [x]) lexClass =
          classCount tokens lexClass + if x.lexClass = lexClass then 1 else 0 := by
        simp [classCount, List.countP_append, List.countP_singleton]
      cases htrivia : x.isTrivia with
      | true =>
          have hclass : x.lexClass = triviaClass := by simpa [Token.isTrivia] using htrivia
          rw [byClass_snoc_of_trivia htrivia, ih, hcount, hclass]
          by_cases heq : triviaClass = lexClass
          · simp [heq]
          · rw [if_neg heq, Nat.add_zero]
      | false =>
          have hclass : x.lexClass ≠ triviaClass := by simpa [Token.isTrivia] using htrivia
          rw [byClass_snoc_of_proper htrivia hcollect, countClass, hcount]
          by_cases heq : lexClass = x.lexClass
          · subst heq
            rw [SortedMap.get?_insert_self, ih]
            by_cases hfound : 0 < classCount tokens x.lexClass
            · simp [hclass, hfound]
            · simp [Nat.eq_zero_of_not_pos hfound, hclass]
          · rw [SortedMap.get?_insert_of_ne _ heq, ih, if_neg (Ne.symm heq), Nat.add_zero]

theorem valueSum_byClass :
    (ofTokens preferences tokens).byClass.valueSum = (Lookahead.proper tokens).length := by
  induction tokens using List.reverseRecOn with
  | nil => rfl
  | append_singleton tokens x ih =>
      cases htrivia : x.isTrivia with
      | true => simp [byClass_snoc_of_trivia htrivia, ih, Lookahead.proper, htrivia]
      | false =>
          have hsum := (ordered_byClass hcollect tokens).valueSum_insert x.lexClass
            (((ofTokens preferences tokens).byClass.get? x.lexClass).getD 0 + 1)
          rw [byClass_snoc_of_proper htrivia hcollect, countClass]
          have hlength : (Lookahead.proper (tokens ++ [x])).length =
              (Lookahead.proper tokens).length + 1 := by
            simp [Lookahead.proper, htrivia]
          omega

end Collected

end LexicalMetrics

namespace Tokenizer

variable {σ : Type} [CharSource σ] {t : Tokenizer σ}

/-- The first calls answer with the given tokens. -/
def Produces (t : Tokenizer σ) (tokens : List Token) : Prop :=
  t.answers tokens.length = tokens.map fun x => .ok (some x)

theorem Yields.answer_of_lt {tokens : List Token} {failure : Option LexerError}
    (h : t.Yields tokens failure) {i : Nat} (hi : i < tokens.length) :
    t.answer i = .ok (some tokens[i]) := by
  have hsplit := (List.take_append_drop i tokens).symm
  rw [List.drop_eq_getElem_cons hi] at hsplit
  have hanswer := h.token hsplit
  rwa [List.length_take, Nat.min_eq_left (Nat.le_of_lt hi)] at hanswer

theorem Yields.produces_front {front back : List Token} {failure : Option LexerError}
    (h : t.Yields (front ++ back) failure) : t.Produces front := by
  apply List.ext_getElem
  · simp [answers]
  · intro i hi hi'
    have hlt : i < front.length := by simpa using hi'
    have hanswer := h.answer_of_lt (Nat.lt_of_lt_of_le hlt (by simp))
    rw [List.getElem_append_left hlt] at hanswer
    simpa [answers] using hanswer

theorem Yields.produces {tokens : List Token} {failure : Option LexerError}
    (h : t.Yields tokens failure) : t.Produces tokens := by
  rw [← List.append_nil tokens] at h
  exact h.produces_front

theorem Produces.metrics_eq {tokens : List Token} (h : t.Produces tokens)
    (hfresh : t.metrics = {}) :
    (t.afterCalls tokens.length).metrics = .ofTokens t.preferences tokens := by
  rw [metrics_afterCalls, h, List.foldl_map, hfresh]
  rfl

theorem metrics_of_end {n : Nat} (h : t.answer n = .ok none) :
    (t.afterCalls (n + 1)).metrics = (t.afterCalls n).metrics := by
  rw [metrics_afterCalls, answers_succ, h, List.foldl_append, ← metrics_afterCalls]
  rfl

end Tokenizer

end Lookahead
