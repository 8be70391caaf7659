import Lookahead.Bundled.Demo
import Lookahead.Lexer.Tokenizer
import Lookahead.Proofs.TextScan

/-!
Maximal munch with priority. The declarative side speaks of acceptors and
beginnings of the text only: an acceptor accepts a text if it ends up in an
accepting state, the token is the longest beginning that some acceptor accepts,
and the first acceptor of the list that accepts it gives the class. The scan
reaches the same result in one pass, and may stop as soon as all automata are
dead because a dead automaton stays dead and never accepts.
-/
namespace Lookahead

namespace Acceptor

/-- What the users of an acceptor rely on. -/
structure Lawful (a : Acceptor) : Prop where
  initial : a.Declares 0
  closed : ∀ {state : Int} (c : Char), a.Declares state → a.Declares (a.transition state c)
  dead_rejects : a.accepting a.dead = false
  dead_sink : ∀ c : Char, a.transition a.dead c = a.dead

def after (a : Acceptor) (text : List Char) : Int := text.foldl a.transition 0

def Accepts (a : Acceptor) (text : List Char) : Prop := a.accepting (a.after text) = true

def Dead (a : Acceptor) (text : List Char) : Prop := a.after text = a.dead

theorem after_snoc (a : Acceptor) (text : List Char) (c : Char) :
    a.after (text ++ [c]) = a.transition (a.after text) c := by
  simp [after, List.foldl_append]

namespace Lawful

variable {a : Acceptor}

theorem declares_foldl (h : a.Lawful) (text : List Char) {state : Int}
    (hstate : a.Declares state) : a.Declares (text.foldl a.transition state) := by
  induction text generalizing state with
  | nil => exact hstate
  | cons c text ih => exact ih (h.closed c hstate)

theorem declares_after (h : a.Lawful) (text : List Char) : a.Declares (a.after text) :=
  h.declares_foldl text h.initial

theorem step_eq (h : a.Lawful) {state : Int} (hstate : a.Declares state) (c : Char) :
    Automaton.step ⟨a, state⟩ c = .ok ⟨a, a.transition state c⟩ := by
  simp [Automaton.step, Acceptor.step, h.closed c hstate]

theorem foldl_dead (h : a.Lawful) (text : List Char) :
    text.foldl a.transition a.dead = a.dead := by
  induction text with
  | nil => rfl
  | cons c text ih => rw [List.foldl_cons, h.dead_sink, ih]

theorem dead_of_beginning (h : a.Lawful) {text other : List Char} (hinitial : text <+: other)
    (hdead : a.Dead text) : a.Dead other := by
  obtain ⟨more, rfl⟩ := hinitial
  rw [Dead, after, List.foldl_append, show text.foldl a.transition 0 = a.dead from hdead]
  exact h.foldl_dead more

theorem not_accepts_of_dead (h : a.Lawful) {text : List Char} (hdead : a.Dead text) :
    ¬ a.Accepts text := by
  rw [Accepts, show a.after text = a.dead from hdead, h.dead_rejects]
  exact Bool.false_ne_true

end Lawful

end Acceptor

namespace Demo

theorem evenLetters_lawful : evenLetters.Lawful where
  initial := by decide
  closed c _ := by
    simp only [evenLetters]
    grind [Acceptor.Declares]
  dead_rejects := rfl
  dead_sink c := by simp [evenLetters]

theorem doubleAmpersand_lawful : doubleAmpersand.Lawful where
  initial := by decide
  closed c _ := by
    simp only [doubleAmpersand]
    grind [Acceptor.Declares]
  dead_rejects := rfl
  dead_sink c := by simp [doubleAmpersand]

theorem space_lawful : space.Lawful where
  initial := by decide
  closed c _ := by
    simp only [space]
    grind [Acceptor.Declares]
  dead_rejects := rfl
  dead_sink c := by simp [space]

theorem lawful : ∀ a ∈ acceptors, a.Lawful := by
  simp only [acceptors, List.forall_mem_cons, List.not_mem_nil, false_implies, implies_true,
    and_true]
  exact ⟨evenLetters_lawful, doubleAmpersand_lawful, space_lawful⟩

end Demo

def Accepted (acceptors : List Acceptor) (text : List Char) : Prop :=
  ∃ a ∈ acceptors, a.Accepts text

/-- The class is that of the first acceptor that accepts the text. -/
def FirstAccepts (acceptors : List Acceptor) (text : List Char) (lexClass : String) : Prop :=
  ∃ earlier a later, acceptors = earlier ++ a :: later ∧ a.Accepts text ∧
    (∀ b ∈ earlier, ¬ b.Accepts text) ∧ a.lexClass = lexClass

/-- The longest nonempty beginning of a text that is accepted, with its class. -/
structure LongestMatch (acceptors : List Acceptor) (text value : List Char)
    (lexClass : String) : Prop where
  nonempty : value ≠ []
  initial : value <+: text
  first : FirstAccepts acceptors value lexClass
  longest : ∀ other, other <+: text → Accepted acceptors other → other.length ≤ value.length

def AllDead (acceptors : List Acceptor) (text : List Char) : Prop :=
  ∀ a ∈ acceptors, a.Dead text

/-- A nonempty beginning of a text after which every acceptor is dead. -/
def Fatal (acceptors : List Acceptor) (text other : List Char) : Prop :=
  other ≠ [] ∧ other <+: text ∧ AllDead acceptors other

/-- The shortest fatal beginning of a text, or all of the text if none is fatal. -/
def Offending (acceptors : List Acceptor) (text offence : List Char) : Prop :=
  (Fatal acceptors text offence ∧
      ∀ other, Fatal acceptors text other → offence.length ≤ other.length) ∨
    (offence = text ∧ ∀ other, ¬ Fatal acceptors text other)

theorem not_accepted_of_allDead {acceptors : List Acceptor} (hlawful : ∀ a ∈ acceptors, a.Lawful)
    {text other : List Char} (hdead : AllDead acceptors text) (hinitial : text <+: other) :
    ¬ Accepted acceptors other := by
  rintro ⟨a, ha, haccepts⟩
  have hother : a.Dead other := (hlawful a ha).dead_of_beginning hinitial (hdead a ha)
  exact (hlawful a ha).not_accepts_of_dead hother haccepts

namespace Scan

variable {acceptors : List Acceptor}

def automataAfter (acceptors : List Acceptor) (text : List Char) : List Automaton :=
  acceptors.map fun a => ⟨a, a.after text⟩

theorem stepAll_automataAfter (hlawful : ∀ a ∈ acceptors, a.Lawful) (text : List Char)
    (c : Char) :
    stepAll c (automataAfter acceptors text) = .ok (automataAfter acceptors (text ++ [c])) := by
  induction acceptors with
  | nil => rfl
  | cons a acceptors ih =>
      have ha : a.Lawful := hlawful a List.mem_cons_self
      have hrest : ∀ b ∈ acceptors, b.Lawful := fun b hb =>
        hlawful b (List.mem_cons_of_mem a hb)
      have hstep : Automaton.step ⟨a, a.after text⟩ c = .ok ⟨a, a.after (text ++ [c])⟩ := by
        rw [a.after_snoc]
        exact ha.step_eq (ha.declares_after text) c
      have hall := ih hrest
      simp only [automataAfter] at hall
      simp [stepAll, automataAfter, hstep, hall]

theorem firstAccepts_of_find? {text : List Char} {m : Automaton}
    (h : (automataAfter acceptors text).find? (·.isAccepting) = some m) :
    FirstAccepts acceptors text m.acceptor.lexClass := by
  rw [automataAfter, List.find?_map, Option.map_eq_some_iff] at h
  obtain ⟨a, hfind, rfl⟩ := h
  obtain ⟨haccepts, earlier, later, hsplit, hearlier⟩ := List.find?_eq_some_iff_append.mp hfind
  refine ⟨earlier, a, later, hsplit, haccepts, ?_, rfl⟩
  intro b hb
  simpa [Acceptor.Accepts, Automaton.isAccepting] using hearlier b hb

theorem not_accepted_of_find? {text : List Char}
    (h : (automataAfter acceptors text).find? (·.isAccepting) = none) :
    ¬ Accepted acceptors text := by
  rintro ⟨a, ha, haccepts⟩
  exact List.find?_eq_none.mp h ⟨a, a.after text⟩ (List.mem_map_of_mem ha) haccepts

theorem any_live_iff (text : List Char) :
    ((automataAfter acceptors text).any fun m => !m.isDead) = false ↔
      AllDead acceptors text := by
  simp [automataAfter, AllDead, Acceptor.Dead, Automaton.isDead]

/-- What a scan has settled on is the best that the text so far offers. -/
def Best (acceptors : List Acceptor) (text definite : List Char) : Option String → Prop
  | none => definite = [] ∧
      ∀ other, other ≠ [] → other <+: text → ¬ Accepted acceptors other
  | some lexClass => LongestMatch acceptors text definite lexClass

structure Follows (acceptors : List Acceptor) (text : List Char) (s : Scan) : Prop where
  automata : s.automata = automataAfter acceptors text
  covered : text = s.definite.reverse ++ s.tentative.reverse
  best : Best acceptors text s.definite.reverse s.winner

theorem follows_start (acceptors : List Acceptor) : (start acceptors).Follows acceptors [] := by
  refine ⟨rfl, rfl, rfl, ?_⟩
  intro other hnonempty hinitial
  exact absurd (List.prefix_nil.mp hinitial) hnonempty

theorem longestMatch_snoc {text : List Char} {c : Char} {lexClass : String}
    (hfirst : FirstAccepts acceptors (text ++ [c]) lexClass) :
    LongestMatch acceptors (text ++ [c]) (text ++ [c]) lexClass := by
  refine ⟨by simp, List.prefix_rfl, hfirst, ?_⟩
  intro other hinitial _
  exact hinitial.length_le

theorem Best.snoc {text definite : List Char} {c : Char} {winner : Option String}
    (hnone : ¬ Accepted acceptors (text ++ [c])) (h : Best acceptors text definite winner) :
    Best acceptors (text ++ [c]) definite winner := by
  cases winner with
  | none =>
      refine ⟨h.1, ?_⟩
      intro other hnonempty hinitial
      obtain rfl | hinitial := List.prefix_concat_iff.mp hinitial
      · exact hnone
      · exact h.2 other hnonempty hinitial
  | some lexClass =>
      have hmatch : LongestMatch acceptors text definite lexClass := h
      refine ⟨hmatch.nonempty, hmatch.initial.trans (List.prefix_append _ _), hmatch.first, ?_⟩
      intro other hinitial haccepted
      obtain rfl | hinitial := List.prefix_concat_iff.mp hinitial
      · exact absurd haccepted hnone
      · exact hmatch.longest other hinitial haccepted

theorem Follows.push (hlawful : ∀ a ∈ acceptors, a.Lawful) {text : List Char} {s : Scan}
    (h : s.Follows acceptors text) (c : Char) :
    ∃ s', s.push c = .ok s' ∧ s'.Follows acceptors (text ++ [c]) := by
  have hstep := stepAll_automataAfter hlawful text c
  have hcovered : s.definite.reverse ++ (s.tentative.reverse ++ [c]) = text ++ [c] := by
    rw [h.covered, List.append_assoc]
  cases hfind : (automataAfter acceptors (text ++ [c])).find? (·.isAccepting) with
  | some m =>
      refine ⟨⟨automataAfter acceptors (text ++ [c]), s.length + 1,
        c :: s.tentative ++ s.definite, [], some m.acceptor.lexClass⟩, ?_, rfl, ?_, ?_⟩
      · simp [Scan.push, h.automata, hstep, hfind]
      · simpa using hcovered.symm
      · simpa [Best, hcovered] using longestMatch_snoc (firstAccepts_of_find? hfind)
  | none =>
      refine ⟨⟨automataAfter acceptors (text ++ [c]), s.length + 1, s.definite,
        c :: s.tentative, s.winner⟩, ?_, rfl, ?_, ?_⟩
      · simp [Scan.push, h.automata, hstep, hfind]
      · simpa using hcovered.symm
      · exact h.best.snoc (not_accepted_of_find? hfind)

/-- A reading that went on exactly as long as some automaton was live. -/
structure Reading.Thorough (acceptors : List Acceptor) (text rest : List Char) (r : Reading) :
    Prop where
  sated : r.stop = .sated
  follows : r.scan.Follows acceptors (text ++ r.taken)
  split : rest = r.taken ++ r.rest
  starts : rest ≠ [] → r.taken ≠ []
  stopped : r.rest = [] ∨ AllDead acceptors (text ++ r.taken)
  live : ∀ front, front ≠ [] → front <+: r.taken → front.length < r.taken.length →
    ¬ AllDead acceptors (text ++ front)

theorem reading_thorough (hlawful : ∀ a ∈ acceptors, a.Lawful) {text : List Char} {s : Scan}
    (h : s.Follows acceptors text) (rest : List Char) :
    (s.reading none rest).Thorough acceptors text rest := by
  induction rest generalizing text s with
  | nil =>
      refine ⟨rfl, by simpa [reading] using h, rfl, fun hne => absurd rfl hne, Or.inl rfl, ?_⟩
      intro front _ _ hlt
      exact absurd hlt (Nat.not_lt_zero _)
  | cons c rest ih =>
      obtain ⟨s', hpush, hfollows⟩ := h.push hlawful c
      have hlive := @any_live_iff acceptors (text ++ [c])
      rw [← hfollows.automata, ← isLive] at hlive
      cases hcase : s'.isLive with
      | false =>
          have hreading : s.reading none (c :: rest) = ⟨.sated, s', [c], rest⟩ := by
            simp [reading, exceeds, hpush, hcase]
          rw [hreading]
          refine ⟨rfl, hfollows, rfl, by simp, Or.inr (hlive.mp hcase), ?_⟩
          intro front hnonempty _ hlt
          exact absurd (List.length_eq_zero_iff.mp (Nat.lt_one_iff.mp hlt)) hnonempty
      | true =>
          have hlater := ih hfollows
          generalize hr : s'.reading none rest = later at hlater
          have hreading : s.reading none (c :: rest) =
              ⟨later.stop, later.scan, c :: later.taken, later.rest⟩ := by
            simp [reading, exceeds, hpush, hcase, hr]
          have hassoc (front : List Char) : text ++ [c] ++ front = text ++ c :: front := by simp
          rw [hreading]
          refine ⟨hlater.sated, ?_, ?_, by simp, ?_, ?_⟩
          · exact hassoc later.taken ▸ hlater.follows
          · rw [List.cons_append, ← hlater.split]
          · exact hassoc later.taken ▸ hlater.stopped
          · intro front hnonempty hinitial hlt
            cases front with
            | nil => exact absurd rfl hnonempty
            | cons d front =>
                obtain ⟨rfl, htail⟩ := List.cons_prefix_cons.mp hinitial
                -- the first character alone leaves an automaton live; later ones by induction
                by_cases hfront : front = []
                · rw [hfront, ← hlive, hcase]
                  exact Bool.noConfusion
                · rw [← hassoc]
                  exact hlater.live front hfront htail (Nat.lt_of_succ_lt_succ hlt)

namespace Reading.Thorough

variable {text : List Char} {r : Reading}

/-- What the reading has not seen, no acceptor accepts. -/
theorem accepted_within (hlawful : ∀ a ∈ acceptors, a.Lawful) (h : r.Thorough acceptors [] text)
    {other : List Char} (hinitial : other <+: text) (haccepted : Accepted acceptors other) :
    other <+: r.taken := by
  have htaken : r.taken <+: text := ⟨r.rest, h.split.symm⟩
  obtain hshorter | hlonger := List.prefix_or_prefix_of_prefix hinitial htaken
  · exact hshorter
  · obtain hrest | hdead := h.stopped
    · have hall : text = r.taken := by rw [h.split, hrest, List.append_nil]
      exact hall ▸ hinitial
    · exact absurd haccepted (not_accepted_of_allDead hlawful hdead hlonger)

theorem longestMatch (hlawful : ∀ a ∈ acceptors, a.Lawful) (h : r.Thorough acceptors [] text)
    {lexClass : String} (hwinner : r.scan.winner = some lexClass) :
    LongestMatch acceptors text r.scan.definite.reverse lexClass := by
  have hbest := h.follows.best
  rw [hwinner] at hbest
  refine ⟨hbest.nonempty, ?_, hbest.first, ?_⟩
  · exact hbest.initial.trans ⟨r.rest, h.split.symm⟩
  · intro other hinitial haccepted
    exact hbest.longest other (h.accepted_within hlawful hinitial haccepted) haccepted

theorem not_accepted (hlawful : ∀ a ∈ acceptors, a.Lawful) (h : r.Thorough acceptors [] text)
    (hwinner : r.scan.winner = none) {other : List Char} (hnonempty : other ≠ [])
    (hinitial : other <+: text) : ¬ Accepted acceptors other := by
  intro haccepted
  have hbest := h.follows.best
  rw [hwinner] at hbest
  exact hbest.2 other hnonempty (h.accepted_within hlawful hinitial haccepted) haccepted

theorem tentative_eq (h : r.Thorough acceptors [] text) (hwinner : r.scan.winner = none) :
    r.scan.tentative.reverse = r.taken := by
  have hbest := h.follows.best
  rw [hwinner] at hbest
  have hcovered : r.taken = r.scan.definite.reverse ++ r.scan.tentative.reverse :=
    h.follows.covered
  rw [hcovered, hbest.1, List.nil_append]

theorem taken_le (h : r.Thorough acceptors [] text) {other : List Char}
    (hfatal : Fatal acceptors text other) : r.taken.length ≤ other.length := by
  obtain ⟨hnonempty, hinitial, hdead⟩ := hfatal
  refine Nat.le_of_not_lt fun hlt => ?_
  have hwithin : other <+: r.taken :=
    List.prefix_of_prefix_length_le hinitial ⟨r.rest, h.split.symm⟩ (Nat.le_of_lt hlt)
  exact h.live other hnonempty hwithin hlt hdead

theorem offending (h : r.Thorough acceptors [] text) (hnonempty : text ≠ []) :
    Offending acceptors text r.taken := by
  by_cases hdead : AllDead acceptors r.taken
  · exact Or.inl ⟨⟨h.starts hnonempty, ⟨r.rest, h.split.symm⟩, hdead⟩, fun _ => h.taken_le⟩
  · have hrest : r.rest = [] := h.stopped.resolve_right hdead
    have hall : r.taken = text := by rw [h.split, hrest, List.append_nil]
    refine Or.inr ⟨hall, ?_⟩
    intro other hfatal
    have hother : other = r.taken := by
      have hwithin : other <+: r.taken := hall ▸ hfatal.2.1
      exact hwithin.eq_of_length_le (h.taken_le hfatal)
    exact hdead (hother ▸ hfatal.2.2)

end Reading.Thorough

/-- The three ways in which one scan can end, and where each leaves the source. -/
theorem token_cases (hlawful : ∀ a ∈ acceptors, a.Lawful) (source : TextSource) :
    (source.rest = [] ∧ (token acceptors none source).1 = .ok none) ∨
    (∃ value lexClass, LongestMatch acceptors source.rest value lexClass ∧
      (token acceptors none source).1 = .ok (some ⟨String.ofList value, lexClass,
        ⟨source.position, source.position.advanceAll value⟩⟩) ∧
      (token acceptors none source).2.StandsAfter source value) ∨
    (source.rest ≠ [] ∧
      (∀ other, other ≠ [] → other <+: source.rest → ¬ Accepted acceptors other) ∧
      ∃ offence, Offending acceptors source.rest offence ∧
        (token acceptors none source).1 = .error (.unrecognizedInput (String.ofList offence)
          ⟨source.position, source.position.advanceAll offence⟩) ∧
        (token acceptors none source).2.StandsAfter source offence) := by
  have h := reading_thorough hlawful (follows_start acceptors) source.rest
  rw [token_text]
  generalize (start acceptors).reading none source.rest = r at h
  have hcovered : r.taken = r.scan.definite.reverse ++ r.scan.tentative.reverse :=
    h.follows.covered
  cases hwinner : r.scan.winner with
  | some lexClass =>
      refine Or.inr (Or.inl ⟨_, lexClass, h.longestMatch hlawful hwinner, ?_, ?_, ?_⟩)
      · simp only [Reading.verdict, h.sated, hwinner]
      · simp only [Reading.verdict, h.sated, hwinner]
        rw [h.split, hcovered, List.append_assoc]
      · simp only [Reading.verdict, h.sated, hwinner]
  | none =>
      have htentative := h.tentative_eq hwinner
      by_cases hempty : source.rest = []
      · have htaken : r.taken = [] :=
          (List.append_eq_nil_iff.mp (h.split.symm.trans hempty)).1
        have hisEmpty : r.scan.tentative.isEmpty = true := by
          rw [htaken] at htentative
          simpa using htentative
        exact Or.inl ⟨hempty, by simp only [Reading.verdict, h.sated, hwinner, hisEmpty, if_true]⟩
      · have hisEmpty : ¬ r.scan.tentative.isEmpty = true := by
          have hstarts := h.starts hempty
          rw [← htentative] at hstarts
          simpa using hstarts
        refine Or.inr (Or.inr ⟨hempty, fun other => h.not_accepted hlawful hwinner,
          r.taken, h.offending hempty, ?_, ?_, ?_⟩)
        · simp only [Reading.verdict, h.sated, hwinner, if_neg hisEmpty, htentative]
        · simp only [Reading.verdict, h.sated, hwinner, if_neg hisEmpty]
          exact h.split
        · simp only [Reading.verdict, h.sated, hwinner, if_neg hisEmpty]

end Scan

namespace Tokenizer

/-- One call of a tokenizer without a length limit, at any place of any text: it
comes to the end of the input exactly if nothing is left, it finds a token exactly
if some nonempty beginning of what is left is accepted, and that token is the
longest match; otherwise it blames the shortest beginning that leaves no automaton
live. The source then stands right after the token or the offending text. -/
theorem next_longestMatch (t : Tokenizer TextSource)
    (hlawful : ∀ a ∈ t.acceptors, a.Lawful)
    (hunlimited : t.preferences.maxTokenLength = none) :
    (t.next.result = .ok none ↔ t.source.rest = []) ∧
    ((∃ token, t.next.result = .ok (some token)) ↔
      ∃ text, text ≠ [] ∧ text <+: t.source.rest ∧ Accepted t.acceptors text) ∧
    (∀ token, t.next.result = .ok (some token) →
      LongestMatch t.acceptors t.source.rest token.value.toList token.lexClass ∧
      token.span = ⟨t.source.position, t.source.position.advanceAll token.value.toList⟩ ∧
      t.next.rest.source.StandsAfter t.source token.value.toList) ∧
    (t.source.rest ≠ [] →
      (¬ ∃ text, text ≠ [] ∧ text <+: t.source.rest ∧ Accepted t.acceptors text) →
      ∃ offence, Offending t.acceptors t.source.rest offence ∧
        t.next.result = .error (.unrecognizedInput (String.ofList offence)
          ⟨t.source.position, t.source.position.advanceAll offence⟩) ∧
        t.next.rest.source.StandsAfter t.source offence) := by
  have hcases := Scan.token_cases hlawful t.source
  rw [← hunlimited] at hcases
  have hresult : (Scan.token t.acceptors t.preferences.maxTokenLength t.source).1 =
      t.next.result := rfl
  have hsource : (Scan.token t.acceptors t.preferences.maxTokenLength t.source).2 =
      t.next.rest.source := rfl
  rw [hresult, hsource] at hcases
  obtain ⟨hempty, hnone⟩ | ⟨value, lexClass, hmatch, hsome, hstands⟩ |
    ⟨hnonempty, hreject, hoffence⟩ := hcases
  · have hno : ¬ ∃ text, text ≠ [] ∧ text <+: t.source.rest ∧ Accepted t.acceptors text := by
      rintro ⟨text, hne, hinitial, -⟩
      rw [hempty] at hinitial
      exact hne (List.prefix_nil.mp hinitial)
    refine ⟨⟨fun _ => hempty, fun _ => hnone⟩, ⟨?_, fun h => absurd h hno⟩, ?_, ?_⟩
    · rintro ⟨token, htoken⟩
      rw [hnone] at htoken
      cases htoken
    · intro token htoken
      rw [hnone] at htoken
      cases htoken
    · intro hne
      exact absurd hempty hne
  · have hyes : ∃ text, text ≠ [] ∧ text <+: t.source.rest ∧ Accepted t.acceptors text := by
      obtain ⟨earlier, a, later, hsplit, haccepts, -, -⟩ := hmatch.first
      exact ⟨value, hmatch.nonempty, hmatch.initial, a, by simp [hsplit], haccepts⟩
    refine ⟨⟨?_, ?_⟩, ⟨fun _ => hyes, fun _ => ⟨_, hsome⟩⟩, ?_, ?_⟩
    · intro hnone
      rw [hsome] at hnone
      cases hnone
    · intro hempty
      have hinitial := hmatch.initial
      rw [hempty] at hinitial
      exact absurd (List.prefix_nil.mp hinitial) hmatch.nonempty
    · intro token htoken
      rw [hsome] at htoken
      cases htoken
      rw [String.toList_ofList]
      exact ⟨hmatch, rfl, hstands⟩
    · intro _ hno
      exact absurd hyes hno
  · obtain ⟨offence, hoffending, herror, hstands⟩ := hoffence
    refine ⟨⟨?_, fun hempty => absurd hempty hnonempty⟩, ⟨?_, ?_⟩, ?_, ?_⟩
    · intro hnone
      rw [herror] at hnone
      cases hnone
    · rintro ⟨token, htoken⟩
      rw [herror] at htoken
      cases htoken
    · rintro ⟨text, hne, hinitial, haccepted⟩
      exact absurd haccepted (hreject text hne hinitial)
    · intro token htoken
      rw [herror] at htoken
      cases htoken
    · intro _ _
      exact ⟨offence, hoffending, herror, hstands⟩

theorem next_longestMatch_demo :
    (∀ a ∈ Demo.acceptors, a.Lawful) ∧
    ∃ token, (ofText "abc ".toList Demo.acceptors {}).next.result = .ok (some token) ∧
      LongestMatch Demo.acceptors "abc ".toList token.value.toList token.lexClass := by
  have h := next_longestMatch (ofText "abc ".toList Demo.acceptors {}) Demo.lawful rfl
  obtain ⟨token, htoken⟩ := h.2.1.mpr
    ⟨"ab".toList, by decide, by decide, Demo.evenLetters, List.mem_cons_self, rfl⟩
  exact ⟨Demo.lawful, token, htoken, (h.2.2.1 token htoken).1⟩

end Tokenizer

end Lookahead
