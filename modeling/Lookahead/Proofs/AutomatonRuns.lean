import Lookahead.Width
import Lookahead.Proofs.MicroHaskellWords

/-!
Runs of an automaton. Over a lawful acceptor no step is refused, so the automaton reads
every text to its end, and once it is dead nothing that it reads changes it. The
acceptors of the bundled lexers are lawful, and so is the acceptor of one fixed text,
which is live as long as what it has read begins that text.

The acceptor of a text has two states more than the text has characters, so the width of
the numbers of states is a limit on the texts that can have an acceptor.
-/
namespace Lookahead

/-- One more than the greatest number of a state, which has 32 bits and a sign. -/
def stateLimit : Nat := halfWordLimit / 2

namespace Acceptor

/-- The declared states and the dead state have numbers below the limit. -/
def Fits (a : Acceptor) : Prop :=
  ∀ state, a.Declares state ∨ state = a.dead → 0 ≤ state ∧ state < stateLimit

theorem literal_fits {word : String} (h : word.length < stateLimit - 2) :
    (literal word).Fits := by
  rintro state (⟨hfirst, hlast⟩ | rfl)
  · simp only [literal, List.size_toArray, String.length_toList] at hlast
    omega
  · simp only [literal, List.size_toArray, String.length_toList]
    omega

theorem Lawful.feed_eq {a : Acceptor} (h : a.Lawful) {state : Int} (hstate : a.Declares state)
    (text : List Char) :
    (Automaton.mk a state).feed text = (⟨a, text.foldl a.transition state⟩, none) := by
  induction text generalizing state with
  | nil => rfl
  | cons c text ih =>
      rw [Automaton.feed, h.step_eq hstate c]
      exact ih (h.closed c hstate)

end Acceptor

namespace Automaton

variable {m : Automaton}

theorem feed_reset (h : m.acceptor.Lawful) (text : List Char) :
    m.reset.feed text = (⟨m.acceptor, m.acceptor.after text⟩, none) :=
  h.feed_eq h.initial text

theorem isDead_iff : m.isDead = true ↔ m.state = m.acceptor.dead := beq_iff_eq

theorem isAccepting_of_isDead (hdead : m.isDead = true) (h : m.acceptor.Lawful) :
    m.isAccepting = false := by
  rw [isAccepting, isDead_iff.mp hdead, h.dead_rejects]

theorem feed_of_isDead (hdead : m.isDead = true) (h : m.acceptor.Lawful)
    (hstate : m.acceptor.Declares m.state) (text : List Char) : m.feed text = (m, none) := by
  obtain ⟨a, state⟩ := m
  obtain rfl : state = a.dead := isDead_iff.mp hdead
  rw [h.feed_eq hstate, h.foldl_dead]

/-- Automata keep what is promised of acceptors. Over the acceptor of a word, none of
whose states needs a wider number, an automaton that starts anew reads any text without a
refused step; it then accepts if and only if it has read the word, and is dead if and only
if what it has read does not begin the word. Over an acceptor of the bundled lexers no
step is refused either, and an automaton that has died stays dead and rejects whatever
follows. -/
theorem feed_contract :
    (∀ (word : String) (m : Automaton), word.length < stateLimit - 2 →
      m.acceptor = .literal word →
      m.acceptor.Fits ∧ ∀ text, ∃ m', m.reset.feed text = (m', none) ∧
        m'.acceptor = m.acceptor ∧ m.acceptor.Declares m'.state ∧
        (m'.isAccepting = true ↔ text = word.toList) ∧
        (m'.isDead = true ↔ ¬ text <+: word.toList)) ∧
    ∀ m : Automaton, m.acceptor ∈ Demo.acceptors ++ MicroHaskell.acceptors →
      ∀ text, ∃ m', m.reset.feed text = (m', none) ∧ (m'.isDead = true →
        ∀ more, ∃ m'', m'.feed more = (m'', none) ∧ m''.isDead = true ∧
          m''.isAccepting = false) := by
  constructor
  · intro word m hlength hacceptor
    have hlawful : m.acceptor.Lawful := hacceptor ▸ literal_lawful word
    have hrecognizes : m.acceptor.Recognizes (· = word.toList) (· <+: word.toList) :=
      hacceptor ▸ literal_recognizes word
    refine ⟨hacceptor ▸ Acceptor.literal_fits hlength, ?_⟩
    intro text
    refine ⟨_, feed_reset hlawful text, rfl, hlawful.declares_after text,
      hrecognizes.accepts_iff text, ?_⟩
    exact isDead_iff.trans (hrecognizes.dead_iff text)
  · intro m hmem text
    have hlawful : m.acceptor.Lawful :=
      (List.mem_append.mp hmem).elim (Demo.lawful _) (MicroHaskell.lawful _)
    refine ⟨_, feed_reset hlawful text, ?_⟩
    intro hdead more
    -- Lawful acceptors need not declare their dead state; this one does, as it was entered.
    refine ⟨_, feed_of_isDead hdead hlawful (hlawful.declares_after text) more, hdead, ?_⟩
    exact isAccepting_of_isDead hdead hlawful

theorem feed_contract_then :
    "then".length < stateLimit - 2 ∧
    (∃ m, (Automaton.mk (.literal "then") 5).reset.feed "thenx".toList = (m, none) ∧
      m.isAccepting = false ∧ m.isDead = true) ∧
    MicroHaskell.comment ∈ Demo.acceptors ++ MicroHaskell.acceptors ∧
    ∃ m, (Automaton.mk MicroHaskell.comment 3).reset.feed ['-', '-', '>'] = (m, none) ∧
      m.isDead = true ∧ ∀ more, ∃ m', m.feed more = (m', none) ∧ m'.isDead = true ∧
        m'.isAccepting = false := by
  have hlength : "then".length < stateLimit - 2 := by decide
  have hmem : MicroHaskell.comment ∈ Demo.acceptors ++ MicroHaskell.acceptors :=
    List.mem_append_right _ ((MicroHaskell.mem_acceptors_iff _).mpr (Or.inl rfl))
  have hdies : ((Automaton.mk MicroHaskell.comment 3).reset.feed ['-', '-', '>']).1.isDead =
      true := by
    decide
  obtain ⟨hliteral, hbundled⟩ := feed_contract
  refine ⟨hlength, ?_, hmem, ?_⟩
  · obtain ⟨-, hruns⟩ := hliteral "then" ⟨.literal "then", 5⟩ hlength rfl
    obtain ⟨m, hfeed, -, -, haccepting, hdead⟩ := hruns "thenx".toList
    refine ⟨m, hfeed, ?_, hdead.mpr (by decide)⟩
    exact Bool.eq_false_iff.mpr (haccepting.not.mpr (by decide))
  · obtain ⟨m, hfeed, hstays⟩ := hbundled ⟨MicroHaskell.comment, 3⟩ hmem ['-', '-', '>']
    rw [hfeed] at hdies
    exact ⟨m, hfeed, hdies, hstays hdies⟩

end Automaton

end Lookahead
