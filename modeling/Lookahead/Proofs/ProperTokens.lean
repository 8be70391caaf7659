import Lookahead.Stream.Basic

/-!
The proper tokens of a queue. To its reader a queue is the list of its tokens that
are not trivia: looking ahead shows the first of them, and what a look ahead takes
away is the trivia before it.
-/
namespace Lookahead

def proper (tokens : List Token) : List Token := tokens.filter fun t => !t.isTrivia

/-- The tokens from the first proper one on. -/
def dropTrivia (tokens : List Token) : List Token := tokens.dropWhile Token.isTrivia

theorem proper_cons_of_trivia {t : Token} (h : t.isTrivia = true) (tokens : List Token) :
    proper (t :: tokens) = proper tokens := by
  simp [proper, h]

theorem proper_cons_of_proper {t : Token} (h : t.isTrivia = false) (tokens : List Token) :
    proper (t :: tokens) = t :: proper tokens := by
  simp [proper, h]

theorem isTrivia_of_mem_proper {t : Token} {tokens : List Token} (h : t ∈ proper tokens) :
    t.isTrivia = false := by
  simpa using (List.mem_filter.mp h).2

theorem proper_dropTrivia (tokens : List Token) : proper (dropTrivia tokens) = proper tokens := by
  induction tokens with
  | nil => rfl
  | cons t tokens ih =>
      cases htrivia : t.isTrivia with
      | true => simpa [dropTrivia, htrivia, proper_cons_of_trivia htrivia] using ih
      | false => simp [dropTrivia, htrivia]

theorem head?_dropTrivia (tokens : List Token) :
    (dropTrivia tokens).head? = (proper tokens).head? := by
  induction tokens with
  | nil => rfl
  | cons t tokens ih =>
      cases htrivia : t.isTrivia with
      | true => simpa [dropTrivia, htrivia, proper_cons_of_trivia htrivia] using ih
      | false => simp [dropTrivia, htrivia, proper_cons_of_proper htrivia]

theorem dropTrivia_dropTrivia (tokens : List Token) :
    dropTrivia (dropTrivia tokens) = dropTrivia tokens := by
  induction tokens with
  | nil => rfl
  | cons t tokens ih =>
      cases htrivia : t.isTrivia with
      | true => simpa [dropTrivia, htrivia] using ih
      | false => simp [dropTrivia, htrivia]

theorem dropTrivia_suffix (tokens : List Token) : dropTrivia tokens <:+ tokens :=
  List.dropWhile_suffix _

/-- In front of a queue with proper tokens stand trivia and then the first of them. -/
theorem dropTrivia_eq_cons {tokens rest : List Token} {t : Token}
    (h : proper tokens = t :: rest) :
    ∃ tail, dropTrivia tokens = t :: tail ∧ proper tail = rest := by
  have hhead := head?_dropTrivia tokens
  have hproper := proper_dropTrivia tokens
  rw [h] at hhead hproper
  obtain ⟨tail, htail⟩ := List.head?_eq_some_iff.mp hhead
  refine ⟨tail, htail, ?_⟩
  have hmem : t ∈ proper tokens := by simp [h]
  rw [htail, proper_cons_of_proper (isTrivia_of_mem_proper hmem)] at hproper
  exact (List.cons.inj hproper).2

theorem dropTrivia_eq_nil {tokens : List Token} (h : proper tokens = []) :
    dropTrivia tokens = [] := by
  have hhead := head?_dropTrivia tokens
  rw [h] at hhead
  exact List.head?_eq_none_iff.mp hhead

namespace TokenQueue

theorem skip_eq (tokens : List Token) :
    TokenStream.skip [] (⟨tokens⟩ : TokenQueue) =
      ⟨.ok (proper tokens).head?, ⟨dropTrivia tokens⟩, []⟩ := by
  induction tokens with
  | nil => rw [TokenStream.skip]; rfl
  | cons t tokens ih =>
      rw [TokenStream.skip]
      cases htrivia : t.isTrivia with
      | true =>
          simpa [TokenStream.peek, TokenStream.pull, peek, pull, htrivia, dropTrivia,
            proper_cons_of_trivia htrivia] using ih
      | false =>
          simp [TokenStream.peek, peek, htrivia, dropTrivia, proper_cons_of_proper htrivia]

theorem peekProper_eq (q : TokenQueue) :
    TokenStream.peekProper q = ⟨.ok (proper q.tokens).head?, ⟨dropTrivia q.tokens⟩, []⟩ :=
  skip_eq q.tokens

theorem pullProper_eq (q : TokenQueue) :
    TokenStream.pullProper q = ⟨.ok (proper q.tokens).head?, ⟨(dropTrivia q.tokens).tail⟩, []⟩ := by
  simp only [TokenStream.pullProper, peekProper_eq, TokenStream.pull, pull, head?_dropTrivia,
    List.append_nil]

end TokenQueue

end Lookahead
