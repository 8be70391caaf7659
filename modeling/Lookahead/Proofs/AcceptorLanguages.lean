import Lookahead.Acceptor.Table
import Lookahead.Proofs.LongestMatch

/-!
What acceptors read. From a given state an acceptor accepts some texts, and is still
live after some. Both sets are found by looking at one character at a time: a text
that is not empty is read from the state to which its first character leads. The
acceptor of a fixed text accepts that text only, and is live on its beginnings.

A table of edges is lawful if its states are declared and no edge leaves the dead
state, which can be checked by computation.
-/
namespace Lookahead

namespace EdgeTable

def Closed (t : EdgeTable) : Prop :=
  0 < t.states ∧ t.declares t.dead = true ∧ t.dead ∉ t.accept ∧
    ∀ edge ∈ t.edges, t.declares edge.target = true ∧ edge.source ≠ t.dead

instance (t : EdgeTable) : Decidable t.Closed := inferInstanceAs (Decidable (_ ∧ _))

variable {t : EdgeTable}

theorem declares_iff (t : EdgeTable) (state : Int) :
    t.declares state = true ↔ t.acceptor.Declares state := by
  simp [declares, Acceptor.Declares, acceptor]

/-- A transition follows an edge, or leads to the dead state. -/
theorem transition_cases (t : EdgeTable) (state : Int) (c : Char) :
    t.transition state c = t.dead ∨
      ∃ edge ∈ t.edges, edge.source = state ∧ t.transition state c = edge.target := by
  simp only [transition]
  split
  · cases hfind : t.edges.find? fun edge => edge.source == state && edge.matcher.admits c with
    | none => exact Or.inl rfl
    | some edge =>
        have htest := List.find?_some hfind
        simp only [Bool.and_eq_true, beq_iff_eq] at htest
        exact Or.inr ⟨edge, List.mem_of_find?_eq_some hfind, htest.1, rfl⟩
  · exact Or.inl rfl

/-- Where the first edge leads that leaves the state under the character. -/
def follow (dead state : Int) (c : Char) : List Edge → Int
  | [] => dead
  | edge :: edges =>
      if edge.source = state ∧ edge.matcher.admits c = true then edge.target
      else follow dead state c edges

theorem transition_eq_follow {state : Int} (h : t.declares state = true) (c : Char) :
    t.acceptor.transition state c = follow t.dead state c t.edges := by
  simp only [acceptor, transition, h, if_true]
  induction t.edges with
  | nil => rfl
  | cons edge edges ih =>
      by_cases htest : edge.source = state ∧ edge.matcher.admits c = true
      · simp [List.find?, follow, htest]
      · have hfind : (edge.source == state && edge.matcher.admits c) = false := by
          simpa using htest
        simp only [List.find?, hfind, follow, if_neg htest]
        exact ih

theorem follow_filter (dead state : Int) (c : Char) (edges : List Edge) :
    follow dead state c (edges.filter (·.source = state)) = follow dead state c edges := by
  induction edges with
  | nil => rfl
  | cons edge edges ih =>
      by_cases hsource : edge.source = state
      · simp [follow, hsource, ih]
      · simp [follow, hsource, ih]

theorem Closed.lawful (h : t.Closed) : t.acceptor.Lawful := by
  obtain ⟨hstates, hdead, haccept, hedges⟩ := h
  refine ⟨?_, ?_, ?_, ?_⟩
  · exact ⟨Int.le_refl 0, Int.natCast_pos.mpr hstates⟩
  · intro state c _
    rw [← declares_iff]
    change t.declares (t.transition state c) = true
    obtain htransition | ⟨edge, hmem, -, htransition⟩ := t.transition_cases state c
    · rw [htransition, hdead]
    · rw [htransition, (hedges edge hmem).1]
  · simp [acceptor, haccept]
  · intro c
    obtain htransition | ⟨edge, hmem, hsource, -⟩ := t.transition_cases t.dead c
    · exact htransition
    · exact absurd hsource (hedges edge hmem).2

end EdgeTable

namespace Acceptor

/-- From that state the acceptor accepts those texts, and is live after those. -/
structure Reads (a : Acceptor) (state : Int) (word begun : List Char → Prop) : Prop where
  accepts_iff : ∀ text, a.accepting (text.foldl a.transition state) = true ↔ word text
  live_iff : ∀ text, text.foldl a.transition state ≠ a.dead ↔ begun text

variable {a : Acceptor} {state next : Int} {word begun : List Char → Prop}

theorem Lawful.reads_dead (h : a.Lawful) :
    a.Reads a.dead (fun _ => False) (fun _ => False) := by
  constructor
  · intro text
    simp [h.foldl_dead, h.dead_rejects]
  · intro text
    simp [h.foldl_dead]

/-- The first character decides from where the rest is read. -/
theorem Reads.of_step (haccepts : a.accepting state = true ↔ word [])
    (hlive : state ≠ a.dead ↔ begun [])
    (hstep : ∀ c, a.Reads (a.transition state c) (fun text => word (c :: text))
      (fun text => begun (c :: text))) : a.Reads state word begun := by
  constructor
  · intro text
    cases text with
    | nil => exact haccepts
    | cons c text => exact (hstep c).accepts_iff text
  · intro text
    cases text with
    | nil => exact hlive
    | cons c text => exact (hstep c).live_iff text

theorem Reads.congr {word' begun' : List Char → Prop} (h : a.Reads state word begun)
    (hword : ∀ text, word text ↔ word' text) (hbegun : ∀ text, begun text ↔ begun' text) :
    a.Reads state word' begun' := by
  constructor
  · intro text
    rw [h.accepts_iff, hword]
  · intro text
    rw [h.live_iff, hbegun]

/-- From that state the acceptor accepts one word only. -/
def Spells (a : Acceptor) (state : Int) (spelling : List Char) : Prop :=
  a.Reads state (· = spelling) (· <+: spelling)

theorem Spells.nil (hlawful : a.Lawful) (haccepts : a.accepting state = true)
    (hlive : state ≠ a.dead) (hstep : ∀ c, a.transition state c = a.dead) :
    a.Spells state [] := by
  apply Reads.of_step
  · simp [haccepts]
  · simp [hlive]
  · intro c
    rw [hstep c]
    apply hlawful.reads_dead.congr
    · simp
    · simp

theorem Spells.cons (hlawful : a.Lawful) {c : Char} {spelling : List Char}
    (haccepts : a.accepting state = false) (hlive : state ≠ a.dead)
    (hstep : ∀ d, a.transition state d = if c = d then next else a.dead)
    (h : a.Spells next spelling) : a.Spells state (c :: spelling) := by
  apply Reads.of_step
  · simp [haccepts]
  · simp [hlive]
  · intro d
    rw [hstep d]
    split
    · rename_i heq
      subst heq
      apply h.congr
      · simp
      · simp
    · rename_i hne
      apply hlawful.reads_dead.congr
      · intro text
        simp [Ne.symm hne]
      · intro text
        simp [Ne.symm hne]

/-- A state that one kind of characters keeps. -/
theorem reads_loop (hlawful : a.Lawful) {test : Char → Bool} (haccepts : a.accepting state = true)
    (hlive : state ≠ a.dead)
    (hstep : ∀ c, a.transition state c = if test c then state else a.dead) :
    a.Reads state (fun text => ∀ c ∈ text, test c = true)
      (fun text => ∀ c ∈ text, test c = true) := by
  have hreads (text : List Char) :
      (a.accepting (text.foldl a.transition state) = true ↔ ∀ c ∈ text, test c = true) ∧
        (text.foldl a.transition state ≠ a.dead ↔ ∀ c ∈ text, test c = true) := by
    induction text with
    | nil => simp [haccepts, hlive]
    | cons c text ih =>
        rw [List.foldl_cons, hstep c]
        cases htest : test c with
        | true => simpa [htest] using ih
        | false => simp [hlawful.foldl_dead, hlawful.dead_rejects, htest]
  exact ⟨fun text => (hreads text).1, fun text => (hreads text).2⟩

/-- The acceptor accepts those texts, and is live after those. -/
def Recognizes (a : Acceptor) (word begun : List Char → Prop) : Prop := a.Reads 0 word begun

theorem Recognizes.accepts_iff (h : a.Recognizes word begun) (text : List Char) :
    a.Accepts text ↔ word text :=
  Reads.accepts_iff h text

theorem Recognizes.dead_iff (h : a.Recognizes word begun) (text : List Char) :
    a.Dead text ↔ ¬ begun text := by
  rw [← Reads.live_iff h text, Classical.not_not]
  rfl

end Acceptor

namespace EdgeTable

open Acceptor

variable {t : EdgeTable} {state next : Int} {c : Char} {spelling : List Char}

/-- An accepting state without edges. -/
theorem Closed.spells_nil (hclosed : t.Closed)
    (hstate : t.declares state = true ∧ state ∈ t.accept ∧ state ≠ t.dead)
    (hedges : t.edges.filter (·.source = state) = []) : t.acceptor.Spells state [] := by
  obtain ⟨hdeclares, haccepts, hlive⟩ := hstate
  have haccepting : t.acceptor.accepting state = true := by
    simp [acceptor, hdeclares, haccepts]
  apply Spells.nil hclosed.lawful haccepting hlive
  intro c
  rw [transition_eq_follow hdeclares, ← follow_filter, hedges]
  rfl

/-- A state that only one edge leaves, under one character. -/
theorem Closed.spells_cons (hclosed : t.Closed)
    (hstate : t.declares state = true ∧ state ∉ t.accept ∧ state ≠ t.dead)
    (hedges : t.edges.filter (·.source = state) = [⟨state, .exact c, next⟩])
    (h : t.acceptor.Spells next spelling) : t.acceptor.Spells state (c :: spelling) := by
  obtain ⟨hdeclares, hrejects, hlive⟩ := hstate
  have haccepting : t.acceptor.accepting state = false := by
    simp [acceptor, hrejects]
  apply Spells.cons hclosed.lawful haccepting hlive _ h
  intro d
  rw [transition_eq_follow hdeclares, ← follow_filter, hedges]
  simp [follow, CharMatcher.admits, acceptor]

/-- An accepting state with one edge, which leads back to it. -/
theorem Closed.reads_loop (hclosed : t.Closed) {test : Char → Bool}
    (hstate : t.declares state = true ∧ state ∈ t.accept ∧ state ≠ t.dead)
    (hedges : t.edges.filter (·.source = state) = [⟨state, .satisfying test, state⟩]) :
    t.acceptor.Reads state (fun text => ∀ c ∈ text, test c = true)
      (fun text => ∀ c ∈ text, test c = true) := by
  obtain ⟨hdeclares, haccepts, hlive⟩ := hstate
  have haccepting : t.acceptor.accepting state = true := by
    simp [acceptor, hdeclares, haccepts]
  apply Acceptor.reads_loop hclosed.lawful haccepting hlive
  intro c
  rw [transition_eq_follow hdeclares, ← follow_filter, hedges]
  simp [follow, CharMatcher.admits, acceptor]

end EdgeTable

section Literal

open Acceptor

theorem literal_lawful (text : String) : (literal text).Lawful := by
  refine ⟨?_, ?_, ?_, ?_⟩
  · exact ⟨Int.le_refl 0, Int.natCast_pos.mpr (Nat.succ_pos _)⟩
  · intro state c _
    simp only [literal, Declares]
    split
    · rename_i h
      have hlt := (Array.getElem?_eq_some_iff.mp h.2).1
      omega
    · omega
  · simp only [literal, beq_eq_false_iff_ne, ne_eq]
    omega
  · intro c
    simp only [literal]
    rw [if_neg]
    rintro ⟨-, h⟩
    have hlt := (Array.getElem?_eq_some_iff.mp h).1
    omega

/-- After a beginning of its text, what a literal has still to see is the rest. -/
theorem literal_spells (text : String) {front rest : List Char} (h : text.toList = front ++ rest) :
    (literal text).Spells front.length rest := by
  have hlawful := literal_lawful text
  induction rest generalizing front with
  | nil =>
      have hsize : front.length = text.toList.length := by rw [h, List.append_nil]
      apply Spells.nil hlawful
      · simp [literal, hsize]
      · simp only [literal, hsize, List.size_toArray]
        omega
      · intro c
        simp [literal, hsize]
  | cons c rest ih =>
      have hchar : text.toList[front.length]? = some c := by simp [h]
      have hsize : front.length < text.toList.length := by simp [h]
      have hnext : (literal text).Spells (front.length + 1) rest := by
        have hspells := ih (show text.toList = (front ++ [c]) ++ rest by simp [h])
        simpa using hspells
      apply Spells.cons hlawful _ _ _ hnext
      · simp [literal]
        omega
      · simp [literal]
        omega
      · intro d
        simp [literal, hchar]

theorem literal_recognizes (text : String) :
    (literal text).Recognizes (· = text.toList) (· <+: text.toList) :=
  @literal_spells text [] text.toList rfl

end Literal

end Lookahead
