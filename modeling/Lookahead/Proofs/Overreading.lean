import Lookahead.Proofs.MicroHaskellWords
import Lookahead.Proofs.StreamLexing

/-!
How far a lexer reads beyond its token. It goes on as long as an acceptor is live, in
the hope of a longer token. If the acceptors have a patience, which is a number of
characters within which they accept again or are all dead, then no scan reads more than
that many characters after the token that it finds, under any limit on the length.

The demonstration lexer has a patience of two characters, since a single letter after a
word can be the first of a pair. That of Micro-Haskell has a patience of one: whatever
keeps it live after a word is a word as well.
-/
namespace Lookahead

def Patience (acceptors : List Acceptor) (k : Nat) : Prop :=
  ∀ front more, front ≠ [] → Accepted acceptors front →
    (∀ part, part ≠ [] → part <+: more → ¬ Accepted acceptors (front ++ part)) →
    k ≤ more.length → AllDead acceptors (front ++ more)

theorem AllDead.append {acceptors : List Acceptor} (hlawful : ∀ a ∈ acceptors, a.Lawful)
    {text : List Char} (h : AllDead acceptors text) (more : List Char) :
    AllDead acceptors (text ++ more) := by
  intro a ha
  exact (hlawful a ha).dead_of_beginning (List.prefix_append text more) (h a ha)

namespace MicroHaskell

theorem patience : Patience acceptors 1 := by
  intro front more hnonempty haccepted hlonger hlength
  cases front with
  | nil => exact absurd rfl hnonempty
  | cons c rest =>
      cases more with
      | nil => cases hlength
      | cons d more =>
          have hnext : ¬ Accepted acceptors (c :: (rest ++ [d])) :=
            hlonger [d] (by simp) (by simp)
          have hdead : AllDead acceptors (c :: (rest ++ [d])) := by
            by_contra hlive
            by_cases hlead : Lead.of c = .large
            · have hfits := ((accepted_iff _).mp haccepted).fits
              simp only [Fits, hlead] at hfits
              obtain ⟨word, hword, heq⟩ := hfits
              rw [allDead_iff_of_large hlead] at hlive
              push Not at hlive
              obtain ⟨other, hother, hbegins⟩ := hlive
              -- the word would have to go on to another one
              have hshorter : word.toList <+: c :: (rest ++ [d]) := by
                rw [← heq, ← List.cons_append]
                exact List.prefix_append _ _
              obtain rfl := capitalized_apart hword hother (hshorter.trans hbegins)
              have hle := hbegins.length_le
              rw [← heq] at hle
              simp only [List.length_cons, List.length_append, List.length_nil] at hle
              omega
            · exact hnext ((accepted_iff _).mpr (word_of_live hlead hlive))
          have happend := hdead.append lawful more
          simpa using happend

end MicroHaskell

namespace Demo

open Acceptor

theorem evenLetters_foldl {text : List Char} (h : ∀ c ∈ text, CharClass.letter.contains c = true) :
    text.foldl evenLetters.transition 0 = (text.length % 2 : Nat) ∧
      text.foldl evenLetters.transition 1 = ((text.length + 1) % 2 : Nat) := by
  induction text with
  | nil => exact ⟨rfl, rfl⟩
  | cons c text ih =>
      obtain ⟨hletter, hrest⟩ := List.forall_mem_cons.mp h
      obtain ⟨heven, hodd⟩ := ih hrest
      have hzero : evenLetters.transition 0 c = 1 := by simp [evenLetters, hletter]
      have hone : evenLetters.transition 1 c = 0 := by simp [evenLetters, hletter]
      rw [List.foldl_cons, List.foldl_cons, hzero, hone, heven, hodd, List.length_cons]
      exact ⟨rfl, by omega⟩

theorem evenLetters_foldl_dead {text : List Char} {state : Int}
    (h : ∃ c ∈ text, CharClass.letter.contains c = false) :
    text.foldl evenLetters.transition state = evenLetters.dead := by
  obtain ⟨c, hc, hletter⟩ := h
  obtain ⟨front, back, rfl⟩ := List.append_of_mem hc
  have hstep (state : Int) : evenLetters.transition state c = evenLetters.dead := by
    simp [evenLetters, hletter]
  rw [List.foldl_append, List.foldl_cons, hstep, evenLetters_lawful.foldl_dead]

theorem evenLetters_recognizes :
    evenLetters.Recognizes
      (fun text => (∀ c ∈ text, CharClass.letter.contains c = true) ∧ text.length % 2 = 0)
      (fun text => ∀ c ∈ text, CharClass.letter.contains c = true) := by
  constructor
  · intro text
    by_cases h : ∀ c ∈ text, CharClass.letter.contains c = true
    · rw [(evenLetters_foldl h).1, and_iff_right h]
      simp only [evenLetters, beq_iff_eq]
      omega
    · rw [evenLetters_foldl_dead (by simpa using h), evenLetters_lawful.dead_rejects]
      simp [h]
  · intro text
    by_cases h : ∀ c ∈ text, CharClass.letter.contains c = true
    · rw [(evenLetters_foldl h).1, iff_true_right h]
      simp only [evenLetters]
      omega
    · rw [evenLetters_foldl_dead (by simpa using h)]
      simp [h]

theorem doubleAmpersand_recognizes :
    doubleAmpersand.Recognizes (· = ['&', '&']) (· <+: ['&', '&']) := by
  have hlawful := doubleAmpersand_lawful
  have hend : doubleAmpersand.Spells 2 [] := by
    apply Spells.nil hlawful rfl (by decide)
    intro c
    simp [doubleAmpersand]
  have hsecond : doubleAmpersand.Spells 1 ['&'] := by
    apply Spells.cons hlawful rfl (by decide) _ hend
    intro d
    simp [doubleAmpersand, eq_comm]
  apply Spells.cons hlawful rfl (by decide) _ hsecond
  intro d
  simp [doubleAmpersand, eq_comm]

theorem length_of_space_live {text : List Char} (h : ¬ space.Dead text) : text.length ≤ 1 := by
  match text with
  | [] => simp
  | [c] => simp
  | c :: d :: text =>
      have hdead : space.Dead [c, d] := by
        simp only [Dead, after, List.foldl_cons, List.foldl_nil, space]
        rw [if_neg]
        rintro ⟨hstate, -⟩
        split at hstate <;> cases hstate
      have hlonger : [c, d] <+: c :: d :: text := List.prefix_append [c, d] text
      exact absurd (space_lawful.dead_of_beginning hlonger hdead) h

/-- After a letter only the acceptor of words is live. -/
theorem dead_of_letter {c : Char} (h : CharClass.letter.contains c = true) :
    doubleAmpersand.Dead [c] ∧ space.Dead [c] := by
  have hother : ∀ d ∈ ['&', ' ', '\n', '\r'], CharClass.letter.contains d = false :=
    List.all_iff_forall_prop.mp (by decide)
  have hne : ∀ d ∈ ['&', ' ', '\n', '\r'], c ≠ d := by
    rintro d hd rfl
    rw [hother c hd] at h
    cases h
  simp only [List.forall_mem_cons, List.not_mem_nil, false_implies, implies_true, and_true] at hne
  obtain ⟨hsign, hspace, hnewline, hreturn⟩ := hne
  constructor
  · simp [Dead, after, doubleAmpersand, hsign]
  · simp [Dead, after, space, hspace, hnewline, hreturn]

/-- A word goes on with letters, the second of which completes a pair; no other text
that is accepted goes on. -/
theorem patience : Patience acceptors 2 := by
  intro front more hnonempty haccepted hlonger hlength
  have htotal : 3 ≤ (front ++ more).length := by
    have hfront := List.length_pos_iff.mpr hnonempty
    rw [List.length_append]
    omega
  intro a ha
  by_contra hlive
  simp only [acceptors, List.mem_cons, List.not_mem_nil, or_false] at ha
  obtain rfl | rfl | rfl := ha
  · rw [evenLetters_recognizes.dead_iff, not_not] at hlive
    have hrejects (b : Acceptor) (hlawful : b.Lawful)
        (hdead : ∀ c, CharClass.letter.contains c = true → b.Dead [c]) : ¬ b.Accepts front := by
      cases front with
      | nil => exact absurd rfl hnonempty
      | cons c rest =>
          have hbegins : [c] <+: c :: rest := List.prefix_append [c] rest
          have hletter := hlive c (by simp)
          exact hlawful.not_accepts_of_dead (hlawful.dead_of_beginning hbegins (hdead c hletter))
    obtain ⟨b, hb, haccepts⟩ := haccepted
    simp only [acceptors, List.mem_cons, List.not_mem_nil, or_false] at hb
    obtain rfl | rfl | rfl := hb
    · obtain ⟨-, heven⟩ := (evenLetters_recognizes.accepts_iff front).mp haccepts
      have hpair : evenLetters.Accepts (front ++ more.take 2) := by
        rw [evenLetters_recognizes.accepts_iff]
        constructor
        · intro c hc
          apply hlive c
          obtain hc | hc := List.mem_append.mp hc
          · exact List.mem_append_left more hc
          · exact List.mem_append_right front (List.mem_of_mem_take hc)
        · rw [List.length_append, List.length_take]
          omega
      have hpart : more.take 2 ≠ [] := by
        intro hnil
        have hzero := congrArg List.length hnil
        rw [List.length_take, List.length_nil] at hzero
        omega
      exact hlonger (more.take 2) hpart (List.take_prefix 2 more)
        ⟨evenLetters, List.mem_cons_self, hpair⟩
    · exact hrejects _ doubleAmpersand_lawful (fun c h => (dead_of_letter h).1) haccepts
    · exact hrejects _ space_lawful (fun c h => (dead_of_letter h).2) haccepts
  · rw [doubleAmpersand_recognizes.dead_iff, not_not] at hlive
    have hle := hlive.length_le
    simp only [List.length_cons, List.length_nil] at hle
    omega
  · have hle := length_of_space_live hlive
    omega

end Demo

namespace Scan

variable {acceptors : List Acceptor} {k : Nat} {text : List Char} {s : Scan}

theorem Follows.tentative_lt (hpatience : Patience acceptors k) (h : s.Follows acceptors text)
    (hwinner : s.winner.isSome = true) (hlive : s.isLive = true) : s.tentative.length < k := by
  obtain ⟨lexClass, hclass⟩ := Option.isSome_iff_exists.mp hwinner
  have hbest := h.best
  rw [hclass] at hbest
  have hmatch : LongestMatch acceptors text s.definite.reverse lexClass := hbest
  by_contra hlong
  have hdead : AllDead acceptors text := by
    rw [h.covered]
    apply hpatience _ _ hmatch.nonempty
    · obtain ⟨earlier, a, later, rfl, haccepts, -, -⟩ := hmatch.first
      exact ⟨a, by simp, haccepts⟩
    · intro part hpart hinitial haccepted
      have hprefix : s.definite.reverse ++ part <+: text := by
        rw [h.covered]
        exact (List.prefix_append_right_inj _).mpr hinitial
      have hle := hmatch.longest _ hprefix haccepted
      rw [List.length_append] at hle
      have hpos := List.length_pos_iff.mpr hpart
      omega
    · rw [List.length_reverse]
      omega
  rw [← any_live_iff, ← h.automata, ← isLive, hlive] at hdead
  cases hdead

variable {σ : Type} [CharSource σ]

theorem count_of_finish {start : Position} {m : Metered σ} {token : Token}
    (hcount : m.count = s.definite.length + s.tentative.length)
    (hbound : s.winner.isSome = true → s.tentative.length ≤ k)
    (h : (s.finish start m).1 = .ok (some token)) :
    (s.finish start m).2.count ≤ token.value.length + k := by
  cases hwinner : s.winner with
  | none =>
      simp only [finish, hwinner] at h
      split at h <;> cases h
  | some lexClass =>
      have hle := hbound (by simp [hwinner])
      cases hrewind : CharSource.rewind m.source with
      | mk answer source =>
          simp only [finish, hwinner, Metered.rewind_eq hrewind] at h ⊢
          cases answer with
          | error e => cases h
          | ok _ =>
              cases h
              simp only [String.length_ofList, List.length_reverse, hcount]
              omega

theorem Follows.count_eq (h : s.Follows acceptors text) :
    text.length = s.definite.length + s.tentative.length := by
  rw [h.covered, List.length_append, List.length_reverse, List.length_reverse]

/-- One character more cannot exhaust the patience by more than itself. -/
theorem tentative_of_push {s' : Scan} {c : Char} (hpush : s.push c = .ok s')
    (hbound : s.winner.isSome = true → s.tentative.length < k) :
    s'.winner.isSome = true → s'.tentative.length ≤ k := by
  obtain ⟨automata, -, ⟨m, -, rfl⟩ | ⟨-, rfl⟩⟩ := push_cases hpush
  · intro _
    exact Nat.zero_le k
  · exact hbound

theorem count_of_read {m m' : Metered σ} {c : Char}
    (hread : CharSource.read m = (.ok (some c), m')) (hcount : m.count = text.length)
    (settled : Bool) :
    (if settled then CharSource.mark m' else m').count = (text ++ [c]).length := by
  have hmark : (if settled then CharSource.mark m' else m').count = m'.count := by
    cases settled <;> rfl
  rw [hmark, Metered.read_count hread, hcount, List.length_append]
  rfl

/-- Along a run, as many characters have been read as the scan has taken in. -/
theorem count_of_run (hlawful : ∀ a ∈ acceptors, a.Lawful) (hpatience : Patience acceptors k)
    (max : Option Nat) (start : Position) (token : Token) (s : Scan) (m : Metered σ) :
    ∀ text, s.Follows acceptors text → m.count = text.length →
      (s.winner.isSome = true → s.tentative.length < k) →
      (s.run max start m).1 = .ok (some token) →
      (s.run max start m).2.count ≤ token.value.length + k := by
  fun_induction run max start s m with
  | case1 s m e m' hread =>
      intro text _ _ _ h
      cases h
  | case2 s m m' hread =>
      intro text hfollows hcount hbound h
      have hcount' : m'.count = m.count := Metered.read_count hread
      apply count_of_finish _ _ h
      · rw [hcount', hcount, hfollows.count_eq]
      · intro hwinner
        exact Nat.le_of_lt (hbound hwinner)
  | case3 s m c m' hread limit hexceeds =>
      intro text _ _ _ h
      cases h
  | case4 s m c m' hread hexceeds e hpush =>
      intro text _ _ _ h
      cases h
  | case5 s m c m' hread hexceeds s' hpush m'' hlive ih =>
      intro text hfollows hcount hbound h
      obtain ⟨pushed, hpushed, hfollows'⟩ := hfollows.push hlawful c
      obtain rfl := Except.ok.inj (hpush.symm.trans hpushed)
      have hcount' := count_of_read hread hcount s'.isSettled
      exact ih _ hfollows' hcount' (fun hwinner => hfollows'.tentative_lt hpatience hwinner hlive) h
  | case6 s m c m' hread hexceeds s' hpush m'' hlive =>
      intro text hfollows hcount hbound h
      obtain ⟨pushed, hpushed, hfollows'⟩ := hfollows.push hlawful c
      obtain rfl := Except.ok.inj (hpush.symm.trans hpushed)
      have hcount' := count_of_read hread hcount s'.isSettled
      apply count_of_finish _ (tentative_of_push hpush hbound) h
      exact hcount'.trans hfollows'.count_eq

end Scan

namespace Tokenizer

/-- Acceptors with a patience of at most a window never overreach it. -/
theorem not_overreaches {σ : Type} [CharSource σ] {t : Tokenizer σ} {window k : Nat}
    (hlawful : ∀ a ∈ t.acceptors, a.Lawful) (hpatience : Patience t.acceptors k)
    (hwindow : k ≤ window) : ¬ t.Overreaches window := by
  rintro ⟨token, hresult, hbeyond⟩
  have herase := Scan.token_erase t.acceptors t.preferences.maxTokenLength ⟨t.source, 0⟩
  have hanswer : (Scan.token t.acceptors t.preferences.maxTokenLength
      (⟨t.source, 0⟩ : Metered σ)).1 = .ok (some token) :=
    (congrArg Prod.fst herase).trans hresult
  have hcount := Scan.count_of_run hlawful hpatience t.preferences.maxTokenLength
    (CharSource.position t.source) token (Scan.start t.acceptors) (⟨t.source, 0⟩ : Metered σ)
    [] (Scan.follows_start t.acceptors) rfl (by simp [Scan.start]) hanswer
  have hread : t.charsRead ≤ token.value.length + k := hcount
  omega

end Tokenizer

end Lookahead
