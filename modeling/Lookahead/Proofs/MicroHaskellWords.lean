import Mathlib.Data.Bool.AllAny
import Mathlib.Tactic.ByContra
import Mathlib.Tactic.SplitIfs
import Lookahead.Bundled.MicroHaskell
import Lookahead.Proofs.AcceptorLanguages
import Lookahead.Proofs.CharacterSets

/-!
The words of Micro-Haskell. Each acceptor is given the texts that it accepts and the
texts after which it is live. All of them together accept the words, and only words
and beginnings of the spelled-out words keep one of them live. The first character of
a text says which acceptors can have a part in it.
-/
namespace Lookahead

open Acceptor EdgeTable

def RunOf (first later : Char → Bool) : List Char → Prop
  | [] => False
  | c :: rest => first c = true ∧ ∀ d ∈ rest, later d = true

namespace EdgeTable

/-- One character of one kind, then any number of another. -/
def run (lexClass : String) (first later : Char → Bool) : EdgeTable where
  lexClass := lexClass
  states := 3
  dead := 2
  edges := [⟨0, .satisfying first, 1⟩, ⟨1, .satisfying later, 1⟩]
  accept := [1]

section Run

variable (lexClass : String) (first later : Char → Bool)

theorem run_closed : (run lexClass first later).Closed := by
  simp [Closed, run, declares]

theorem run_recognizes :
    (run lexClass first later).acceptor.Recognizes (RunOf first later)
      (fun text => text = [] ∨ RunOf first later text) := by
  have hclosed := run_closed lexClass first later
  have hinitial (c : Char) : (run lexClass first later).acceptor.transition 0 c =
      if first c then 1 else (run lexClass first later).acceptor.dead := by
    rw [transition_eq_follow rfl]
    simp [follow, run, CharMatcher.admits, acceptor]
  have hloop := @Closed.reads_loop _ 1 hclosed later (by simp [run, declares]) rfl
  apply Reads.of_step
  · simp [RunOf, acceptor, run]
  · simp [acceptor, run]
  · intro c
    rw [hinitial c]
    cases hfirst : first c with
    | true => exact hloop.congr (by simp [RunOf, hfirst]) (by simp [RunOf, hfirst])
    | false =>
        exact hclosed.lawful.reads_dead.congr (by simp [RunOf, hfirst]) (by simp [RunOf, hfirst])

end Run

end EdgeTable
namespace MicroHaskell

/-- What may stand in a name after its first character. -/
def isNameChar (c : Char) : Bool :=
  CharClass.letter.lists c || CharClass.digit.lists c || c == '\x27'

theorem variableName_eq :
    variableName = (run "VAR" CharClass.small.contains isNameChar).acceptor := by
  have hname : isNameChar = fun c =>
      CharClass.letter.contains c || CharClass.digit.contains c || c == '\x27' := by
    funext c
    simp only [isNameChar, CharClass.lists_eq_contains]
  rw [hname]
  rfl

theorem variableName_recognizes :
    variableName.Recognizes (RunOf CharClass.small.contains isNameChar)
      (fun text => text = [] ∨ RunOf CharClass.small.contains isNameChar text) := by
  rw [variableName_eq]
  exact run_recognizes _ _ _

theorem symbol_eq :
    symbol = (run "SYM" CharClass.symbolic.contains CharClass.symbolic.contains).acceptor := rfl

theorem blanks_eq :
    blanks =
      (run triviaClass CharClass.whitespace.contains CharClass.whitespace.contains).acceptor := rfl

def IsNumeral : List Char → Prop
  | [] => False
  | c :: rest =>
      if '0' = c then rest = []
      else CharClass.digit.contains c = true ∧ ∀ d ∈ rest, CharClass.digit.contains d = true

theorem numeral_lawful : numeral.Lawful := Closed.lawful (by decide)

theorem numeral_recognizes :
    numeral.Recognizes IsNumeral (fun text => text = [] ∨ IsNumeral text) := by
  have hinitial (c : Char) : numeral.transition 0 c =
      if '0' = c then 1 else if CharClass.digit.contains c then 2 else numeral.dead := by
    rw [numeral, transition_eq_follow rfl]
    simp [follow, CharMatcher.admits, CharMatcher.ofClass, acceptor]
  have hzero : numeral.Spells 1 [] := Closed.spells_nil (by decide) (by decide) rfl
  have hdigits : numeral.Reads 2 (fun text => ∀ c ∈ text, CharClass.digit.contains c = true)
      (fun text => ∀ c ∈ text, CharClass.digit.contains c = true) :=
    Closed.reads_loop (by decide) (by decide) rfl
  apply Reads.of_step
  · simp [IsNumeral, numeral, acceptor]
  · simp [numeral, acceptor]
  · intro c
    rw [hinitial c]
    by_cases hc : '0' = c
    · subst hc
      exact hzero.congr (by simp [IsNumeral]) (by simp [IsNumeral])
    rw [if_neg hc]
    cases hdigit : CharClass.digit.contains c with
    | true =>
        exact hdigits.congr (by simp [IsNumeral, hc, hdigit]) (by simp [IsNumeral, hc, hdigit])
    | false =>
        exact numeral_lawful.reads_dead.congr (by simp [IsNumeral, hc, hdigit])
          (by simp [IsNumeral, hc, hdigit])

theorem boolean_lawful : boolean.Lawful := Closed.lawful (by decide)

theorem boolean_recognizes :
    boolean.Recognizes (fun text => text = "True".toList ∨ text = "False".toList)
      (fun text => text <+: "True".toList ∨ text <+: "False".toList) := by
  have hend : boolean.Spells 6 [] := Closed.spells_nil (by decide) (by decide) rfl
  have he : boolean.Spells 5 "e".toList := Closed.spells_cons (by decide) (by decide) rfl hend
  have hse : boolean.Spells 4 "se".toList := Closed.spells_cons (by decide) (by decide) rfl he
  have hlse : boolean.Spells 3 "lse".toList := Closed.spells_cons (by decide) (by decide) rfl hse
  have halse : boolean.Spells 2 "alse".toList :=
    Closed.spells_cons (by decide) (by decide) rfl hlse
  have hue : boolean.Spells 7 "ue".toList := Closed.spells_cons (by decide) (by decide) rfl he
  have hrue : boolean.Spells 1 "rue".toList := Closed.spells_cons (by decide) (by decide) rfl hue
  have hinitial (c : Char) : boolean.transition 0 c =
      if 'T' = c then 1 else if 'F' = c then 2 else boolean.dead := by
    rw [boolean, transition_eq_follow rfl]
    simp [follow, CharMatcher.admits, acceptor]
  apply Reads.of_step
  · simp [boolean, acceptor]
  · simp [boolean, acceptor]
  · intro c
    rw [hinitial c]
    by_cases htrue : 'T' = c
    · subst htrue
      exact hrue.congr (by simp) (by simp)
    rw [if_neg htrue]
    by_cases hfalse : 'F' = c
    · subst hfalse
      exact halse.congr (by simp) (by simp)
    · rw [if_neg hfalse]
      exact boolean_lawful.reads_dead.congr (by simp [Ne.symm htrue, Ne.symm hfalse])
        (by simp [Ne.symm htrue, Ne.symm hfalse])

/-- What may follow after the first two dashes of a comment. -/
def CommentTail : List Char → Prop
  | [] => True
  | c :: rest =>
      if '-' = c then CommentTail rest
      else CharClass.symbolic.contains c = false ∧ CharClass.newline.contains c = false ∧
        ∀ d ∈ rest, CharClass.newline.contains d = false

def IsComment (text : List Char) : Prop :=
  ∃ tail, text = '-' :: '-' :: tail ∧ CommentTail tail

theorem commentTail_iff (text : List Char) :
    CommentTail text ↔ ∃ dashes body, text = dashes ++ body ∧ (∀ d ∈ dashes, d = '-') ∧
      (∀ d ∈ body.head?, CharClass.symbolic.contains d = false) ∧
      ∀ d ∈ body, CharClass.newline.contains d = false := by
  induction text with
  | nil => exact ⟨fun _ => ⟨[], [], by simp⟩, fun _ => trivial⟩
  | cons c rest ih =>
      rw [CommentTail]
      by_cases hdash : '-' = c
      · subst hdash
        rw [if_pos rfl, ih]
        constructor
        · rintro ⟨dashes, body, rfl, hdashes, hbody⟩
          exact ⟨'-' :: dashes, body, rfl, by simpa using hdashes, hbody⟩
        · rintro ⟨dashes, body, heq, hdashes, hhead, hbody⟩
          cases dashes with
          | nil =>
              obtain rfl : '-' :: rest = body := heq
              exact absurd (hhead '-' rfl) (by decide)
          | cons d dashes =>
              obtain ⟨-, rfl⟩ := List.cons.inj heq
              exact ⟨dashes, body, rfl, fun d hd => hdashes d (List.mem_cons_of_mem _ hd), hhead,
                hbody⟩
      · rw [if_neg hdash]
        constructor
        · rintro ⟨hsymbolic, hnewline, hrest⟩
          exact ⟨[], c :: rest, rfl, by simp, by simpa using hsymbolic,
            by simpa using ⟨hnewline, hrest⟩⟩
        · rintro ⟨dashes, body, heq, hdashes, hhead, hbody⟩
          cases dashes with
          | nil =>
              obtain rfl : c :: rest = body := heq
              exact ⟨hhead c rfl, List.forall_mem_cons.mp hbody⟩
          | cons d dashes =>
              obtain ⟨rfl, -⟩ := List.cons.inj heq
              exact absurd (hdashes c List.mem_cons_self).symm hdash

/-- A comment is two or more dashes, and then the rest of a line that does not begin
with a symbolic character. -/
theorem isComment_iff (text : List Char) :
    IsComment text ↔ ∃ dashes body, text = dashes ++ body ∧ 2 ≤ dashes.length ∧
      (∀ d ∈ dashes, d = '-') ∧ (∀ d ∈ body.head?, CharClass.symbolic.contains d = false) ∧
      ∀ d ∈ body, CharClass.newline.contains d = false := by
  constructor
  · rintro ⟨tail, rfl, htail⟩
    obtain ⟨dashes, body, rfl, hdashes, hbody⟩ := (commentTail_iff tail).mp htail
    exact ⟨'-' :: '-' :: dashes, body, rfl, by simp, by simpa using hdashes, hbody⟩
  · rintro ⟨dashes, body, rfl, hlength, hdashes, hbody⟩
    match dashes, hlength, hdashes with
    | d :: e :: dashes, _, hdashes =>
        obtain ⟨rfl, rfl, hmore⟩ : d = '-' ∧ e = '-' ∧ ∀ d ∈ dashes, d = '-' := by
          simpa using hdashes
        exact ⟨dashes ++ body, rfl, (commentTail_iff _).mpr ⟨dashes, body, rfl, hmore, hbody⟩⟩

theorem comment_lawful : comment.Lawful := Closed.lawful (by decide)

theorem comment_reads_tail : comment.Reads 2 CommentTail CommentTail := by
  have hdashes (c : Char) : comment.transition 2 c =
      if '-' = c then 2
      else if !CharClass.newline.contains c && !CharClass.symbolic.contains c then 3
      else comment.dead := by
    rw [comment, transition_eq_follow rfl]
    simp [follow, CharMatcher.admits, acceptor]
  have hbody : comment.Reads 3 (fun text => ∀ c ∈ text, (!CharClass.newline.contains c) = true)
      (fun text => ∀ c ∈ text, (!CharClass.newline.contains c) = true) :=
    Closed.reads_loop (by decide) (by decide) rfl
  have hreads (text : List Char) :
      (comment.accepting (text.foldl comment.transition 2) = true ↔ CommentTail text) ∧
        (text.foldl comment.transition 2 ≠ comment.dead ↔ CommentTail text) := by
    induction text with
    | nil => exact ⟨by simp [CommentTail, comment, acceptor, declares],
        by simp [CommentTail, comment, acceptor]⟩
    | cons c text ih =>
        rw [List.foldl_cons, hdashes c, CommentTail]
        by_cases hdash : '-' = c
        · simpa only [if_pos hdash] using ih
        rw [if_neg hdash, if_neg hdash]
        -- the first character of the body settles it, or ends it
        by_cases hbegins : CharClass.symbolic.contains c = false ∧
            CharClass.newline.contains c = false
        · rw [if_pos (by simp [hbegins]), hbody.accepts_iff, hbody.live_iff]
          simp [hbegins]
        · rw [if_neg (by simpa [and_comm] using hbegins), comment_lawful.foldl_dead,
            comment_lawful.dead_rejects, ← and_assoc]
          simp [hbegins]
  exact ⟨fun text => (hreads text).1, fun text => (hreads text).2⟩

theorem comment_recognizes :
    comment.Recognizes IsComment
      (fun text => text = [] ∨ text = ['-'] ∨ IsComment text) := by
  have hfirst (c : Char) : comment.transition 0 c = if '-' = c then 1 else comment.dead := by
    rw [comment, transition_eq_follow rfl]
    simp [follow, CharMatcher.admits, acceptor]
  have hsecond (c : Char) : comment.transition 1 c = if '-' = c then 2 else comment.dead := by
    rw [comment, transition_eq_follow rfl]
    simp [follow, CharMatcher.admits, acceptor]
  have hdash : comment.Reads 1 (fun text => IsComment ('-' :: text))
      (fun text => text = [] ∨ IsComment ('-' :: text)) := by
    apply Reads.of_step
    · simp [IsComment, comment, acceptor]
    · simp [comment, acceptor]
    · intro c
      rw [hsecond c]
      by_cases hc : '-' = c
      · subst hc
        exact comment_reads_tail.congr (by simp [IsComment]) (by simp [IsComment])
      · rw [if_neg hc]
        exact comment_lawful.reads_dead.congr (by simp [IsComment, Ne.symm hc])
          (by simp [IsComment, Ne.symm hc])
  apply Reads.of_step
  · simp [IsComment, comment, acceptor]
  · simp [comment, acceptor]
  · intro c
    rw [hfirst c]
    by_cases hc : '-' = c
    · subst hc
      exact hdash.congr (by simp) (by simp)
    · rw [if_neg hc]
      exact comment_lawful.reads_dead.congr (by simp [IsComment, Ne.symm hc])
        (by simp [IsComment, Ne.symm hc])

theorem mem_acceptors_iff (a : Acceptor) :
    a ∈ acceptors ↔ a = comment ∨ a = blanks ∨ (∃ text ∈ reserved, a = literal text) ∨
      a = boolean ∨ a = symbol ∨ a = variableName ∨ a = numeral := by
  simp [acceptors, eq_comm]

theorem lawful : ∀ a ∈ acceptors, a.Lawful := by
  intro a ha
  obtain rfl | rfl | ⟨text, -, rfl⟩ | rfl | rfl | rfl | rfl := (mem_acceptors_iff a).mp ha
  · exact comment_lawful
  · exact (run_closed _ _ _).lawful
  · exact literal_lawful text
  · exact boolean_lawful
  · exact (run_closed _ _ _).lawful
  · exact (run_closed _ _ _).lawful
  · exact numeral_lawful

inductive Word : List Char → Prop where
  | comment {text : List Char} (h : IsComment text) : Word text
  | blanks {text : List Char}
      (h : RunOf CharClass.whitespace.contains CharClass.whitespace.contains text) : Word text
  | literal {text : String} (h : text ∈ reserved) : Word text.toList
  | boolean {text : List Char} (h : text = "True".toList ∨ text = "False".toList) : Word text
  | symbol {text : List Char}
      (h : RunOf CharClass.symbolic.contains CharClass.symbolic.contains text) : Word text
  | variableName {text : List Char} (h : RunOf CharClass.small.contains isNameChar text) :
      Word text
  | numeral {text : List Char} (h : IsNumeral text) : Word text

theorem accepted_iff (text : List Char) : Accepted acceptors text ↔ Word text := by
  constructor
  · rintro ⟨a, ha, haccepts⟩
    obtain rfl | rfl | ⟨word, hword, rfl⟩ | rfl | rfl | rfl | rfl := (mem_acceptors_iff a).mp ha
    · exact .comment ((comment_recognizes.accepts_iff text).mp haccepts)
    · exact .blanks (((run_recognizes _ _ _).accepts_iff text).mp haccepts)
    · obtain rfl := ((literal_recognizes word).accepts_iff text).mp haccepts
      exact .literal hword
    · exact .boolean ((boolean_recognizes.accepts_iff text).mp haccepts)
    · exact .symbol (((run_recognizes _ _ _).accepts_iff text).mp haccepts)
    · exact .variableName ((variableName_recognizes.accepts_iff text).mp haccepts)
    · exact .numeral ((numeral_recognizes.accepts_iff text).mp haccepts)
  · intro h
    cases h with
    | comment h =>
        exact ⟨comment, by simp [mem_acceptors_iff], (comment_recognizes.accepts_iff _).mpr h⟩
    | blanks h =>
        exact ⟨blanks, by simp [mem_acceptors_iff], ((run_recognizes _ _ _).accepts_iff _).mpr h⟩
    | @literal word h =>
        have hmem : literal word ∈ acceptors :=
          (mem_acceptors_iff _).mpr (Or.inr (Or.inr (Or.inl ⟨word, h, rfl⟩)))
        exact ⟨literal word, hmem, ((literal_recognizes word).accepts_iff _).mpr rfl⟩
    | boolean h =>
        exact ⟨boolean, by simp [mem_acceptors_iff], (boolean_recognizes.accepts_iff _).mpr h⟩
    | symbol h =>
        exact ⟨symbol, by simp [mem_acceptors_iff], ((run_recognizes _ _ _).accepts_iff _).mpr h⟩
    | variableName h =>
        exact ⟨variableName, by simp [mem_acceptors_iff],
          (variableName_recognizes.accepts_iff _).mpr h⟩
    | numeral h =>
        exact ⟨numeral, by simp [mem_acceptors_iff], (numeral_recognizes.accepts_iff _).mpr h⟩

/-- The words that are spelled out letter by letter. -/
def spelled : List String := reserved ++ ["True", "False"]

theorem allDead_iff (text : List Char) :
    AllDead acceptors text ↔
      text ≠ [] ∧ ¬ Word text ∧ ∀ word ∈ spelled, ¬ text <+: word.toList := by
  constructor
  · intro h
    have hrejects : ¬ Accepted acceptors text :=
      not_accepted_of_allDead lawful h List.prefix_rfl
    refine ⟨?_, fun hword => hrejects ((accepted_iff text).mpr hword), ?_⟩
    · rintro rfl
      have hdead := h comment (by simp [mem_acceptors_iff])
      exact (comment_recognizes.dead_iff []).mp hdead (Or.inl rfl)
    · intro word hword hbegins
      obtain hreserved | hboolean := List.mem_append.mp hword
      · have hmem : literal word ∈ acceptors :=
          (mem_acceptors_iff _).mpr (Or.inr (Or.inr (Or.inl ⟨word, hreserved, rfl⟩)))
        exact ((literal_recognizes word).dead_iff text).mp (h _ hmem) hbegins
      · have hdead := h boolean (by simp [mem_acceptors_iff])
        apply (boolean_recognizes.dead_iff text).mp hdead
        simp only [List.mem_cons, List.not_mem_nil, or_false] at hboolean
        obtain rfl | rfl := hboolean
        · exact Or.inl hbegins
        · exact Or.inr hbegins
  · rintro ⟨hnonempty, hword, hspelled⟩ a ha
    obtain rfl | rfl | ⟨word, hmem, rfl⟩ | rfl | rfl | rfl | rfl := (mem_acceptors_iff a).mp ha
    · rw [comment_recognizes.dead_iff]
      rintro (h | rfl | h)
      · exact hnonempty h
      · exact hword (.symbol ⟨by decide, by simp⟩)
      · exact hword (.comment h)
    · rw [blanks_eq, (run_recognizes _ _ _).dead_iff]
      rintro (h | h)
      · exact hnonempty h
      · exact hword (.blanks h)
    · rw [(literal_recognizes word).dead_iff]
      exact hspelled word (List.mem_append_left _ hmem)
    · rw [boolean_recognizes.dead_iff]
      rintro (h | h)
      · exact hspelled "True" (by decide) h
      · exact hspelled "False" (by decide) h
    · rw [symbol_eq, (run_recognizes _ _ _).dead_iff]
      rintro (h | h)
      · exact hnonempty h
      · exact hword (.symbol h)
    · rw [variableName_recognizes.dead_iff]
      rintro (h | h)
      · exact hnonempty h
      · exact hword (.variableName h)
    · rw [numeral_recognizes.dead_iff]
      rintro (h | h)
      · exact hnonempty h
      · exact hword (.numeral h)

/-- What the first character of a text announces. -/
inductive Lead where
  | blank
  | small
  | zero
  | digit
  | mark
  | symbolic
  | large
  | foreign
deriving DecidableEq, Repr

def marks : List Char := ['(', ')', ';']

def Lead.of (c : Char) : Lead :=
  if CharClass.whitespace.lists c then .blank
  else if CharClass.small.lists c then .small
  else if c = '0' then .zero
  else if CharClass.digit.lists c then .digit
  else if c ∈ marks then .mark
  else if CharClass.symbolic.lists c then .symbolic
  else if CharClass.large.lists c then .large
  else .foreign

namespace Lead

/-- The character is of the kind that it announces. -/
theorem holds_of (c : Char) :
    match Lead.of c with
    | .blank => CharClass.whitespace.contains c = true
    | .small => CharClass.small.contains c = true
    | .zero => c = '0'
    | .digit => CharClass.digit.contains c = true ∧ c ≠ '0'
    | .mark => c ∈ marks
    | .symbolic => CharClass.symbolic.contains c = true
    | .large => CharClass.large.contains c = true
    | .foreign => True := by
  unfold Lead.of
  simp only [CharClass.lists_eq_contains]
  split_ifs <;> simp_all

/-- A class that contains none of the blanks has nothing in common with them. -/
theorem not_whitespace {k : CharClass} {c : Char}
    (hblanks : CharClass.blanks.all (!k.contains ·) = true) (h : k.contains c = true) :
    CharClass.whitespace.contains c ≠ true := by
  intro hblank
  have hother := List.all_eq_true.mp hblanks c (by simpa [CharClass.contains] using hblank)
  rw [h] at hother
  cases hother

theorem of_blank {c : Char} (h : CharClass.whitespace.contains c = true) :
    Lead.of c = .blank := by
  simp only [Lead.of, CharClass.lists_eq_contains]
  rw [if_pos h]

theorem of_small {c : Char} (h : CharClass.small.contains c = true) : Lead.of c = .small := by
  simp only [Lead.of, CharClass.lists_eq_contains]
  rw [if_neg (not_whitespace (by decide) h), if_pos h]

theorem of_digit {c : Char} (h : CharClass.digit.contains c = true) (hzero : '0' ≠ c) :
    Lead.of c = .digit := by
  have hblank := not_whitespace (by decide) h
  have hsmall : CharClass.small.contains c ≠ true := by
    simp only [CharClass.contains, CharClass.isDigit, Bool.and_eq_true, decide_eq_true_eq] at h
    intro hsmall
    obtain hlower | hunderscore := Bool.or_eq_true_iff.mp hsmall
    · simp only [CharClass.isLowercase, Bool.and_eq_true, decide_eq_true_eq] at hlower
      exact absurd (Char.le_trans hlower.1 h.2) (by decide)
    · rw [beq_iff_eq] at hunderscore
      rw [hunderscore] at h
      exact absurd h.2 (by decide)
  simp only [Lead.of, CharClass.lists_eq_contains]
  rw [if_neg hblank, if_neg hsmall, if_neg hzero.symm, if_pos h]

theorem of_symbolic {c : Char} (h : CharClass.symbolic.contains c = true) :
    Lead.of c = .symbolic := by
  have hall : ∀ d ∈ CharClass.symbols, Lead.of d = .symbolic :=
    List.all_iff_forall_prop.mp (by decide)
  exact hall c (by simpa [CharClass.contains] using h)

end Lead

/-- The reserved words that begin with a capital letter, and the booleans. -/
def capitalized : List String := ["True", "False", "Bool", "Integer"]

theorem exists_lead_of_capitalized {word : String} (h : word ∈ capitalized) :
    ∃ c rest, word.toList = c :: rest ∧ Lead.of c = .large := by
  have hall : ∀ word ∈ capitalized, word.toList.head?.map Lead.of = some .large := by decide
  obtain ⟨c, hhead, hlead⟩ := Option.map_eq_some_iff.mp (hall word h)
  obtain ⟨rest, hrest⟩ := List.head?_eq_some_iff.mp hhead
  exact ⟨c, rest, hrest, hlead⟩

theorem capitalized_apart {word other : String} (hword : word ∈ capitalized)
    (hother : other ∈ capitalized) (h : word.toList <+: other.toList) : word = other := by
  have hall : ∀ word ∈ capitalized, ∀ other ∈ capitalized,
      word.toList <+: other.toList → word = other := by decide
  exact hall word hword other hother h

theorem begins_spelled {word : String} {c : Char} {rest : List Char} (hword : word ∈ spelled)
    (h : c :: rest <+: word.toList) :
    (Lead.of c = .small ∧ ∀ d ∈ rest, isNameChar d = true) ∨ (Lead.of c = .mark ∧ rest = []) ∨
      (Lead.of c = .large ∧ word ∈ capitalized) := by
  have hall : ∀ word ∈ spelled, ∀ lead ∈ word.toList.head?.map Lead.of,
      (lead = .small ∧ word.toList.tail.all isNameChar = true) ∨
        (lead = .mark ∧ word.toList.tail = []) ∨ (lead = .large ∧ word ∈ capitalized) := by
    decide
  obtain ⟨more, hmore⟩ := h
  have hcases := hall word hword (Lead.of c) (by simp [← hmore])
  rw [← hmore] at hcases
  obtain ⟨hlead, hname⟩ | ⟨hlead, hnil⟩ | hlarge := hcases
  · refine Or.inl ⟨hlead, fun d hd => List.all_eq_true.mp hname d ?_⟩
    exact List.mem_append_left more hd
  · exact Or.inr (Or.inl ⟨hlead, (List.append_eq_nil_iff.mp hnil).1⟩)
  · exact Or.inr (Or.inr hlarge)

/-- What a word can look like that begins with that character. -/
def Fits (c : Char) (rest : List Char) : Prop :=
  match Lead.of c with
  | .blank => ∀ d ∈ rest, CharClass.whitespace.contains d = true
  | .small => ∀ d ∈ rest, isNameChar d = true
  | .zero | .mark => rest = []
  | .digit => ∀ d ∈ rest, CharClass.digit.contains d = true
  | .symbolic => IsComment (c :: rest) ∨ ∀ d ∈ rest, CharClass.symbolic.contains d = true
  | .large => ∃ word ∈ capitalized, c :: rest = word.toList
  | .foreign => False

theorem Word.fits {c : Char} {rest : List Char} (h : Word (c :: rest)) : Fits c rest := by
  generalize htext : c :: rest = text at h
  cases h with
  | comment h =>
      obtain ⟨tail, rfl, htail⟩ := h
      cases htext
      have hlead : Lead.of '-' = .symbolic := by decide
      simp only [Fits, hlead]
      exact Or.inl ⟨tail, rfl, htail⟩
  | blanks h =>
      subst htext
      simpa only [Fits, Lead.of_blank h.1] using h.2
  | @literal word h =>
      have hspelled : word ∈ spelled := List.mem_append_left _ h
      have hbegins : c :: rest <+: word.toList := htext ▸ List.prefix_rfl
      obtain ⟨hlead, hname⟩ | ⟨hlead, hnil⟩ | ⟨hlead, hlarge⟩ := begins_spelled hspelled hbegins
      · simpa only [Fits, hlead] using hname
      · simpa only [Fits, hlead] using hnil
      · simp only [Fits, hlead]
        exact ⟨word, hlarge, htext⟩
  | boolean h =>
      obtain ⟨word, hword, rfl⟩ : ∃ word ∈ capitalized, text = word.toList := by
        obtain rfl | rfl := h
        · exact ⟨"True", by decide, rfl⟩
        · exact ⟨"False", by decide, rfl⟩
      obtain ⟨d, rest', heq, hlead⟩ := exists_lead_of_capitalized hword
      obtain ⟨rfl, rfl⟩ := List.cons.inj (htext.trans heq)
      simp only [Fits, hlead]
      exact ⟨word, hword, heq.symm⟩
  | symbol h =>
      subst htext
      simp only [Fits, Lead.of_symbolic h.1]
      exact Or.inr h.2
  | variableName h =>
      subst htext
      simpa only [Fits, Lead.of_small h.1] using h.2
  | numeral h =>
      subst htext
      simp only [IsNumeral] at h
      split at h
      · rename_i hzero
        subst hzero
        have hlead : Lead.of '0' = .zero := by decide
        simpa only [Fits, hlead] using h
      · rename_i hzero
        simpa only [Fits, Lead.of_digit h.1 hzero] using h.2

theorem marks_reserved : ∀ d ∈ marks, String.ofList [d] ∈ reserved :=
  List.all_iff_forall_prop.mp (by decide)

/-- Away from capital letters, what keeps an acceptor live is a word already. -/
theorem word_of_live {c : Char} {rest : List Char} (hlead : Lead.of c ≠ .large)
    (h : ¬ AllDead acceptors (c :: rest)) : Word (c :: rest) := by
  by_contra hword
  apply h
  rw [allDead_iff]
  refine ⟨by simp, hword, ?_⟩
  intro word hspelled hbegins
  apply hword
  have hholds := Lead.holds_of c
  obtain ⟨hsmall, hname⟩ | ⟨hmark, rfl⟩ | ⟨hlarge, -⟩ := begins_spelled hspelled hbegins
  · rw [hsmall] at hholds
    exact .variableName ⟨hholds, hname⟩
  · rw [hmark] at hholds
    have hliteral := Word.literal (marks_reserved c hholds)
    rwa [String.toList_ofList] at hliteral
  · exact absurd hlarge hlead

theorem allDead_iff_of_large {c : Char} {rest : List Char} (hlead : Lead.of c = .large) :
    AllDead acceptors (c :: rest) ↔ ∀ word ∈ capitalized, ¬ c :: rest <+: word.toList := by
  have hsubset : ∀ word ∈ capitalized, word ∈ spelled := by decide
  rw [allDead_iff]
  constructor
  · rintro ⟨-, -, h⟩ word hword
    exact h word (hsubset word hword)
  · intro h
    refine ⟨by simp, ?_, ?_⟩
    · intro hword
      have hfits := hword.fits
      simp only [Fits, hlead] at hfits
      obtain ⟨word, hmem, heq⟩ := hfits
      exact h word hmem (heq ▸ List.prefix_rfl)
    · intro word hspelled hbegins
      obtain ⟨hsmall, -⟩ | ⟨hmark, -⟩ | ⟨-, hcapitalized⟩ := begins_spelled hspelled hbegins
      · simp [hlead] at hsmall
      · simp [hlead] at hmark
      · exact h word hcapitalized hbegins

end MicroHaskell

end Lookahead
