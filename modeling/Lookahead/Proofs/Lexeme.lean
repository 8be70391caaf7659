import Mathlib.Data.List.TakeWhile
import Lookahead.Proofs.AcceptorLanguages

/-!
The lexeme in front of a text. A scan finds a token or refuses a beginning of the text,
and the text determines which: two longest matches are the same, and so are their
classes and the offending texts. So whoever exhibits a longest match, or shows that
there is none, knows the answer of the scan.

Two ways to exhibit one: where all words are runs of characters the longest run is the
match, and the class is found by going through the acceptors in their order.
-/
namespace Lookahead

variable {acceptors : List Acceptor} {text : List Char}

/-- What a scan finds in front of a text. -/
inductive Lexeme where
  | token (value : List Char) (lexClass : String)
  | unrecognized (offence : List Char)
deriving DecidableEq, Repr

namespace Lexeme

def taken : Lexeme → List Char
  | .token value _ => value
  | .unrecognized offence => offence

/-- The answer of a scan that has found it, from the position on where it begins. -/
def answer (start : Position) : Lexeme → Except LexerError (Option Token)
  | .token value lexClass =>
      .ok (some ⟨String.ofList value, lexClass, ⟨start, start.advanceAll value⟩⟩)
  | .unrecognized offence =>
      .error (.unrecognizedInput (String.ofList offence) ⟨start, start.advanceAll offence⟩)

/-- The text has the lexeme in front. -/
def Heads (acceptors : List Acceptor) (text : List Char) : Lexeme → Prop
  | .token value lexClass => LongestMatch acceptors text value lexClass
  | .unrecognized offence =>
      text ≠ [] ∧ (∀ other, other ≠ [] → other <+: text → ¬ Accepted acceptors other) ∧
        Offending acceptors text offence

end Lexeme

theorem FirstAccepts.accepted {lexClass : String} (h : FirstAccepts acceptors text lexClass) :
    Accepted acceptors text := by
  obtain ⟨earlier, a, later, rfl, haccepts, -, -⟩ := h
  exact ⟨a, by simp, haccepts⟩

theorem FirstAccepts.unique {lexClass other : String}
    (h : FirstAccepts acceptors text lexClass) (h' : FirstAccepts acceptors text other) :
    lexClass = other := by
  have hfind {k : String} (hk : FirstAccepts acceptors text k) :
      (acceptors.find? fun a => a.accepting (a.after text)).map (·.lexClass) = some k := by
    obtain ⟨earlier, a, later, hsplit, haccepts, hearlier, rfl⟩ := hk
    have hsome : (acceptors.find? fun a => a.accepting (a.after text)) = some a := by
      rw [List.find?_eq_some_iff_append]
      refine ⟨haccepts, earlier, later, hsplit, ?_⟩
      intro b hb
      simpa [Acceptor.Accepts] using hearlier b hb
    rw [hsome]
    rfl
  exact Option.some.inj ((hfind h).symm.trans (hfind h'))

theorem LongestMatch.unique {value value' : List Char} {lexClass lexClass' : String}
    (h : LongestMatch acceptors text value lexClass)
    (h' : LongestMatch acceptors text value' lexClass') :
    value = value' ∧ lexClass = lexClass' := by
  have hlength : value.length = value'.length :=
    Nat.le_antisymm (h'.longest value h.initial h.first.accepted)
      (h.longest value' h'.initial h'.first.accepted)
  obtain rfl : value = value' :=
    (List.prefix_of_prefix_length_le h.initial h'.initial hlength.le).eq_of_length hlength
  exact ⟨rfl, h.first.unique h'.first⟩

theorem Offending.unique {offence offence' : List Char} (h : Offending acceptors text offence)
    (h' : Offending acceptors text offence') : offence = offence' := by
  obtain ⟨hfatal, hshortest⟩ | ⟨rfl, hnone⟩ := h
  · obtain ⟨hfatal', hshortest'⟩ | ⟨-, hnone'⟩ := h'
    · have hlength : offence.length = offence'.length :=
        Nat.le_antisymm (hshortest offence' hfatal') (hshortest' offence hfatal)
      exact (List.prefix_of_prefix_length_le hfatal.2.1 hfatal'.2.1
        hlength.le).eq_of_length hlength
    · exact absurd hfatal (hnone' offence)
  · obtain ⟨hfatal', -⟩ | ⟨rfl, -⟩ := h'
    · exact absurd hfatal' (hnone offence')
    · rfl

/-- A scan answers with the lexeme that stands in front. -/
theorem Scan.token_of_heads (hlawful : ∀ a ∈ acceptors, a.Lawful) {source : TextSource}
    {found : Lexeme} (h : found.Heads acceptors source.rest) :
    (Scan.token acceptors none source).1 = found.answer source.position ∧
      (Scan.token acceptors none source).2.StandsAfter source found.taken := by
  obtain ⟨hempty, -⟩ | ⟨value, lexClass, hmatch, hresult, hstands⟩ |
    ⟨-, hreject, offence, hoffending, hresult, hstands⟩ := Scan.token_cases hlawful source
  · cases found with
    | token value lexClass =>
        have hinitial := LongestMatch.initial h
        rw [hempty] at hinitial
        exact absurd (List.prefix_nil.mp hinitial) (LongestMatch.nonempty h)
    | unrecognized offence => exact absurd hempty h.1
  · cases found with
    | token value' lexClass' =>
        obtain ⟨rfl, rfl⟩ := hmatch.unique h
        exact ⟨hresult, hstands⟩
    | unrecognized offence =>
        exact absurd hmatch.first.accepted (h.2.1 value hmatch.nonempty hmatch.initial)
  · cases found with
    | token value lexClass =>
        have haccepted := (LongestMatch.first h).accepted
        exact absurd haccepted (hreject value (LongestMatch.nonempty h) (LongestMatch.initial h))
    | unrecognized offence' =>
        obtain rfl := hoffending.unique h.2.2
        exact ⟨hresult, hstands⟩

theorem length_le_takeWhile {test : Char → Bool} {front rest : List Char} (h : front <+: rest)
    (hall : ∀ c ∈ front, test c = true) : front.length ≤ (rest.takeWhile test).length := by
  obtain ⟨more, rfl⟩ := h
  rw [List.takeWhile_append_of_pos hall]
  simp

/-- Where every word in front of the text is a run, the longest run is the match. -/
theorem longestMatch_run {c : Char} {rest : List Char} {later : Char → Bool} {lexClass : String}
    (hfirst : FirstAccepts acceptors (c :: rest.takeWhile later) lexClass)
    (hruns : ∀ more, more <+: rest → Accepted acceptors (c :: more) → ∀ d ∈ more, later d = true) :
    LongestMatch acceptors (c :: rest) (c :: rest.takeWhile later) lexClass := by
  refine ⟨by simp, ?_, hfirst, ?_⟩
  · exact List.cons_prefix_cons.mpr ⟨rfl, List.takeWhile_prefix later⟩
  · intro other hinitial haccepted
    cases other with
    | nil => simp
    | cons d more =>
        obtain ⟨rfl, hmore⟩ := List.cons_prefix_cons.mp hinitial
        exact Nat.succ_le_succ (length_le_takeWhile hmore (hruns more hmore haccepted))

namespace FirstAccepts

variable {a : Acceptor} {lexClass : String}

theorem here (h : a.Accepts text) : FirstAccepts (a :: acceptors) text a.lexClass :=
  ⟨[], a, acceptors, rfl, h, by simp, rfl⟩

theorem later (hrejects : ¬ a.Accepts text) (h : FirstAccepts acceptors text lexClass) :
    FirstAccepts (a :: acceptors) text lexClass := by
  obtain ⟨earlier, b, later, rfl, haccepts, hearlier, hclass⟩ := h
  refine ⟨a :: earlier, b, later, rfl, haccepts, ?_, hclass⟩
  intro d hd
  obtain rfl | hd := List.mem_cons.mp hd
  · exact hrejects
  · exact hearlier d hd

theorem literal {words : List String} {word : String} (h : word ∈ words) :
    FirstAccepts (words.map Acceptor.literal ++ acceptors) word.toList word := by
  induction words with
  | nil => cases h
  | cons other words ih =>
      by_cases hother : other = word
      · subst hother
        exact here (((literal_recognizes other).accepts_iff _).mpr rfl)
      · have hrejects : ¬ (Acceptor.literal other).Accepts word.toList := by
          rw [(literal_recognizes other).accepts_iff, String.toList_inj]
          exact Ne.symm hother
        exact later hrejects (ih ((List.mem_cons.mp h).resolve_left (Ne.symm hother)))

theorem after_literals {words : List String} (hwords : String.ofList text ∉ words)
    (h : FirstAccepts acceptors text lexClass) :
    FirstAccepts (words.map Acceptor.literal ++ acceptors) text lexClass := by
  induction words with
  | nil => exact h
  | cons other words ih =>
      obtain ⟨hother, hwords⟩ := not_or.mp (List.mem_cons.not.mp hwords)
      have hrejects : ¬ (Acceptor.literal other).Accepts text := by
        rw [(literal_recognizes other).accepts_iff]
        rintro rfl
        exact hother (String.ofList_toList)
      exact later hrejects (ih hwords)

end FirstAccepts

end Lookahead
