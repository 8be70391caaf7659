import Lookahead.Proofs.ContextFree

/-!
The grammar of the demonstration table. Its start symbol vanishes, or encloses
itself between a word and the sign and goes on after the sign. In every form that
it generates only the sign stands right after a nonterminal, so the table is that
of the grammar.
-/
namespace Lookahead

open ContextFree

namespace Demo

abbrev Nonterminal : Type := { symbol : String // isNonterminalSymbol symbol = true }

def start : Nonterminal := ⟨startSymbol, by decide⟩

def vanish : ContextFreeRule String Nonterminal := ⟨start, []⟩

def enclose : ContextFreeRule String Nonterminal :=
  ⟨start, [.terminal evenClass, .nonterminal start, .terminal andClass, .nonterminal start]⟩

abbrev balanced : ContextFreeGrammar String where
  NT := Nonterminal
  initial := start
  rules := {vanish, enclose}

theorem mem_rules_iff (r : ContextFreeRule String Nonterminal) :
    r ∈ balanced.rules ↔ r = vanish ∨ r = enclose := by
  change r ∈ ({vanish, enclose} : Finset (ContextFreeRule String Nonterminal)) ↔ _
  simp

/-- Only the sign stands right after a nonterminal. -/
def Separated : List (Symbol String Nonterminal) → Prop
  | [] => True
  | .terminal _ :: form => Separated form
  | .nonterminal _ :: form =>
      (∀ next ∈ form.head?, next = .terminal andClass) ∧ Separated form

theorem Separated.rewrites {r : ContextFreeRule String Nonterminal}
    {form form' : List (Symbol String Nonterminal)} (hrule : r ∈ balanced.rules)
    (hrewrites : r.Rewrites form form') (h : Separated form) : Separated form' := by
  induction hrewrites with
  | head form =>
      obtain rfl | rfl := (mem_rules_iff r).mp hrule
      · exact h.2
      · exact ⟨by simp, h⟩
  | cons s hrest ih =>
      cases s with
      | terminal a => exact ih h
      | nonterminal A =>
          refine ⟨?_, ih h.2⟩
          cases hrest with
          | head form => simpa using h.1
          | cons next hrest => exact h.1

theorem separated_of_generates {form : List (Symbol String Nonterminal)}
    (h : balanced.Generates form) : Separated form := by
  induction h with
  | refl => exact ⟨by simp, trivial⟩
  | tail _ hstep ih =>
      obtain ⟨r, hrule, hrewrites⟩ := hstep
      exact ih.rewrites hrule hrewrites

theorem Separated.after {before after : List (Symbol String Nonterminal)} {A : Nonterminal}
    {next : Symbol String Nonterminal} (h : Separated (before ++ .nonterminal A :: next :: after)) :
    next = .terminal andClass := by
  induction before with
  | nil => exact h.1 next rfl
  | cons s before ih =>
      cases s with
      | terminal a => exact ih h
      | nonterminal B => exact ih h.2

theorem follow_start_iff (ahead : Option String) :
    Follow balanced start ahead ↔ ahead = none ∨ ahead = some andClass := by
  cases ahead with
  | none => simpa using ⟨[], .refl _⟩
  | some a =>
      constructor
      · rintro ⟨before, after, h⟩
        simpa using (separated_of_generates h).after
      · intro h
        obtain rfl : a = andClass := by simpa using h
        have hrule : enclose ∈ balanced.rules := (mem_rules_iff _).mpr (Or.inr rfl)
        exact ⟨[.terminal evenClass], [.nonterminal start], derives_rule hrule (.refl _)⟩

theorem chosen_vanish_iff (ahead : Option String) :
    Chosen balanced vanish ahead ↔ ahead = none ∨ ahead = some andClass := by
  rw [← follow_start_iff]
  constructor
  · rintro (⟨a, -, rest, h⟩ | ⟨-, h⟩)
    · obtain heq | ⟨form, ⟨r, -, hrewrites⟩, -⟩ := h.eq_or_head
      · cases heq
      · cases hrewrites
    · exact h
  · exact fun h => Or.inr ⟨.refl [], h⟩

theorem chosen_enclose_iff (ahead : Option String) :
    Chosen balanced enclose ahead ↔ ahead = some evenClass := by
  constructor
  · rintro (⟨a, rfl, rest, h⟩ | ⟨h, -⟩)
    · obtain ⟨rest', heq⟩ := derives_terminal_cons h
      simpa using (List.cons.inj heq).1
    · obtain ⟨rest', heq⟩ := derives_terminal_cons h
      cases heq
  · rintro rfl
    exact Or.inl ⟨evenClass, rfl, _, .refl _⟩

theorem entry_start_iff (ahead : Option String) (rhs : List String) :
    grammar.entry startSymbol ahead = some rhs ↔
      (ahead = none ∨ ahead = some andClass) ∧ vanish.output.map (spell Subtype.val) = rhs ∨
        ahead = some evenClass ∧ enclose.output.map (spell Subtype.val) = rhs := by
  have hdistinct : evenClass ≠ andClass := by decide
  simp only [grammar, if_true]
  split
  · rename_i hvanish
    obtain rfl | rfl := hvanish
    · simp [vanish]
    · simp [vanish, hdistinct.symm]
  · rename_i hvanish
    split
    · rename_i heven
      subst heven
      simp [hdistinct, enclose, spell, start]
    · rename_i heven
      simp [hvanish, heven]

/-- The demonstration table is that of its grammar. -/
theorem predicts : grammar.Predicts balanced Subtype.val where
  rules_apart := by
    intro r hrule a ha A
    have hterminal : isNonterminalSymbol a = false := by
      obtain rfl | rfl := (mem_rules_iff r).mp hrule
      · cases ha
      · have hclass : a = evenClass ∨ a = andClass := by simpa [enclose] using ha
        obtain rfl | rfl := hclass <;> decide
    intro heq
    rw [← heq, A.property] at hterminal
    cases hterminal
  startSymbol_eq := rfl
  isNonterminal_iff symbol := ⟨fun h => ⟨⟨symbol, h⟩, rfl⟩, fun ⟨A, hA⟩ => hA ▸ A.property⟩
  entry_iff := by
    intro A ahead rhs
    by_cases hA : A = start
    · subst hA
      rw [show start.val = startSymbol from rfl, entry_start_iff, ← chosen_vanish_iff,
        ← chosen_enclose_iff]
      constructor
      · rintro (⟨hchosen, rfl⟩ | ⟨hchosen, rfl⟩)
        · exact ⟨vanish, (mem_rules_iff _).mpr (Or.inl rfl), rfl, rfl, hchosen⟩
        · exact ⟨enclose, (mem_rules_iff _).mpr (Or.inr rfl), rfl, rfl, hchosen⟩
      · rintro ⟨r, hrule, -, rfl, hchosen⟩
        obtain rfl | rfl := (mem_rules_iff r).mp hrule
        · exact Or.inl ⟨hchosen, rfl⟩
        · exact Or.inr ⟨hchosen, rfl⟩
    · have hname : A.val ≠ startSymbol := fun h => hA (Subtype.ext h)
      constructor
      · intro h
        simp [grammar, hname] at h
      · rintro ⟨r, hrule, rfl, -⟩
        obtain rfl | rfl := (mem_rules_iff r).mp hrule <;> exact absurd rfl hA

end Demo

end Lookahead
