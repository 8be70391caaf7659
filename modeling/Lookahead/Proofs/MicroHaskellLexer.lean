import Lookahead.Proofs.Lexeme
import Lookahead.Proofs.MicroHaskellWords

/-!
The lexer of Micro-Haskell, by the first character of what is left. Blanks, names,
numerals and operators are runs of characters; brackets and semicolons stand alone; an
operator of dashes only begins a comment, which goes on to the end of the line. Of the
words with a capital letter there are four; any other text that begins with one is
refused as far as it agrees with one of them, and one character more.
-/
namespace Lookahead.MicroHaskell

open EdgeTable

def keywords : List String := ["if", "then", "else"]

/-- The number of characters in which two texts agree from the beginning on. -/
def sharedLength : List Char → List Char → Nat
  | c :: text, d :: word => if c = d then sharedLength text word + 1 else 0
  | _, _ => 0

/-- The longest agreement of a text with one of the words with a capital letter. -/
def agreement (text : List Char) : Nat :=
  (capitalized.map (sharedLength text ·.toList)).foldl max 0

/-- A symbolic run, or the comment that it begins. -/
def operator (run rest : List Char) : Lexeme :=
  if 2 ≤ run.length ∧ run.all (· == '-') = true then
    .token (run ++ rest.takeWhile (!CharClass.newline.lists ·)) triviaClass
  else .token run "SYM"

/-- A word with a capital letter, or the text up to the first character that fits none. -/
def capital (text : List Char) : Lexeme :=
  match capitalized.find? (·.toList.isPrefixOf text) with
  | some word => .token word.toList (if word = "True" ∨ word = "False" then "BOOLEAN" else word)
  | none => .unrecognized (text.take (agreement text + 1))

/-- What stands in front of a text that begins with that character. -/
def lexeme (c : Char) (rest : List Char) : Lexeme :=
  match Lead.of c with
  | .blank => .token (c :: rest.takeWhile CharClass.whitespace.lists) triviaClass
  | .small =>
      let name := c :: rest.takeWhile isNameChar
      .token name (if String.ofList name ∈ keywords then String.ofList name else "VAR")
  | .zero => .token [c] "NUM"
  | .digit => .token (c :: rest.takeWhile CharClass.digit.lists) "NUM"
  | .mark => .token [c] (String.ofList [c])
  | .symbolic =>
      operator (c :: rest.takeWhile CharClass.symbolic.lists)
        (rest.dropWhile CharClass.symbolic.lists)
  | .large => capital (c :: rest)
  | .foreign => .unrecognized [c]

section Classes

variable {c : Char} {rest : List Char}

theorem comment_rejects (h : Lead.of c ≠ .symbolic) : ¬ comment.Accepts (c :: rest) := by
  rw [comment_recognizes.accepts_iff]
  rintro ⟨tail, heq, -⟩
  cases heq
  exact h (by decide)

theorem blanks_rejects (h : Lead.of c ≠ .blank) : ¬ blanks.Accepts (c :: rest) := by
  rw [blanks_eq, (run_recognizes _ _ _).accepts_iff]
  rintro ⟨hblank, -⟩
  exact h (Lead.of_blank hblank)

theorem boolean_rejects (h : Lead.of c ≠ .large) : ¬ boolean.Accepts (c :: rest) := by
  rw [boolean_recognizes.accepts_iff]
  rintro (heq | heq)
  · cases heq
    exact h (by decide)
  · cases heq
    exact h (by decide)

theorem symbol_rejects (h : Lead.of c ≠ .symbolic) : ¬ symbol.Accepts (c :: rest) := by
  rw [symbol_eq, (run_recognizes _ _ _).accepts_iff]
  rintro ⟨hsymbolic, -⟩
  exact h (Lead.of_symbolic hsymbolic)

theorem variableName_rejects (h : Lead.of c ≠ .small) : ¬ variableName.Accepts (c :: rest) := by
  rw [variableName_recognizes.accepts_iff]
  rintro ⟨hsmall, -⟩
  exact h (Lead.of_small hsmall)

theorem not_reserved (hsmall : Lead.of c ≠ .small) (hmark : Lead.of c ≠ .mark)
    (hlarge : Lead.of c ≠ .large) : String.ofList (c :: rest) ∉ reserved := by
  intro hreserved
  have hspelled : String.ofList (c :: rest) ∈ spelled := List.mem_append_left _ hreserved
  have hbegins : c :: rest <+: (String.ofList (c :: rest)).toList := by simp
  obtain ⟨h, -⟩ | ⟨h, -⟩ | ⟨h, -⟩ := begins_spelled hspelled hbegins
  · exact hsmall h
  · exact hmark h
  · exact hlarge h

/-- The acceptors after those of trivia, for a text that is neither. -/
theorem firstAccepts_of_proper {lexClass : String} (hsymbolic : Lead.of c ≠ .symbolic)
    (hblank : Lead.of c ≠ .blank)
    (h : FirstAccepts (reserved.map Acceptor.literal ++ [boolean, symbol, variableName, numeral])
      (c :: rest) lexClass) : FirstAccepts acceptors (c :: rest) lexClass :=
  .later (comment_rejects hsymbolic) (.later (blanks_rejects hblank) h)

theorem firstAccepts_blanks (hlead : Lead.of c = .blank)
    (hblank : ∀ d ∈ rest, CharClass.whitespace.contains d = true) :
    FirstAccepts acceptors (c :: rest) triviaClass := by
  have hholds := Lead.holds_of c
  rw [hlead] at hholds
  have haccepts : blanks.Accepts (c :: rest) :=
    ((run_recognizes _ _ _).accepts_iff _).mpr ⟨hholds, hblank⟩
  exact .later (comment_rejects (by simp [hlead])) (.here haccepts)

theorem firstAccepts_name (hlead : Lead.of c = .small)
    (hname : ∀ d ∈ rest, isNameChar d = true) :
    FirstAccepts acceptors (c :: rest)
      (if String.ofList (c :: rest) ∈ keywords then String.ofList (c :: rest) else "VAR") := by
  apply firstAccepts_of_proper (by simp [hlead]) (by simp [hlead])
  have hkeywords : ∀ word ∈ reserved,
      word.toList.head?.map Lead.of = some .small → word ∈ keywords := by decide
  have hreserved : ∀ word ∈ keywords, word ∈ reserved := by decide
  by_cases hkeyword : String.ofList (c :: rest) ∈ keywords
  · have hliteral := @FirstAccepts.literal [boolean, symbol, variableName, numeral] _ _
      (hreserved _ hkeyword)
    rw [String.toList_ofList] at hliteral
    rwa [if_pos hkeyword]
  · have hnot : String.ofList (c :: rest) ∉ reserved := by
      intro hmem
      exact hkeyword (hkeywords _ hmem (by simp [hlead]))
    have hholds := Lead.holds_of c
    rw [hlead] at hholds
    have haccepts : variableName.Accepts (c :: rest) :=
      (variableName_recognizes.accepts_iff _).mpr ⟨hholds, hname⟩
    rw [if_neg hkeyword]
    apply FirstAccepts.after_literals hnot
    exact .later (boolean_rejects (by simp [hlead]))
      (.later (symbol_rejects (by simp [hlead])) (.here haccepts))

theorem firstAccepts_numeral (hlead : Lead.of c = .zero ∨ Lead.of c = .digit)
    (h : IsNumeral (c :: rest)) : FirstAccepts acceptors (c :: rest) "NUM" := by
  have hdiffers (lead : Lead) (hzero : lead ≠ .zero) (hdigit : lead ≠ .digit) :
      Lead.of c ≠ lead := by
    rintro rfl
    obtain hlead | hlead := hlead
    · exact hzero hlead
    · exact hdigit hlead
  have haccepts : numeral.Accepts (c :: rest) := (numeral_recognizes.accepts_iff _).mpr h
  apply firstAccepts_of_proper (hdiffers _ (by decide) (by decide))
    (hdiffers _ (by decide) (by decide))
  apply FirstAccepts.after_literals
  · exact not_reserved (hdiffers _ (by decide) (by decide)) (hdiffers _ (by decide) (by decide))
      (hdiffers _ (by decide) (by decide))
  · exact .later (boolean_rejects (hdiffers _ (by decide) (by decide)))
      (.later (symbol_rejects (hdiffers _ (by decide) (by decide)))
        (.later (variableName_rejects (hdiffers _ (by decide) (by decide))) (.here haccepts)))

theorem firstAccepts_comment {text : List Char} (h : IsComment text) :
    FirstAccepts acceptors text triviaClass :=
  .here ((comment_recognizes.accepts_iff text).mpr h)

theorem firstAccepts_symbol (hlead : Lead.of c = .symbolic) (hcomment : ¬ IsComment (c :: rest))
    (hsymbolic : ∀ d ∈ rest, CharClass.symbolic.contains d = true) :
    FirstAccepts acceptors (c :: rest) "SYM" := by
  have hholds := Lead.holds_of c
  rw [hlead] at hholds
  have haccepts : symbol.Accepts (c :: rest) :=
    ((run_recognizes _ _ _).accepts_iff _).mpr ⟨hholds, hsymbolic⟩
  have hrejects : ¬ comment.Accepts (c :: rest) := by
    rwa [comment_recognizes.accepts_iff]
  apply FirstAccepts.later hrejects
  apply FirstAccepts.later (blanks_rejects (by simp [hlead]))
  apply FirstAccepts.after_literals
  · exact not_reserved (by simp [hlead]) (by simp [hlead]) (by simp [hlead])
  · exact .later (boolean_rejects (by simp [hlead])) (.here haccepts)

theorem firstAccepts_mark (hlead : Lead.of c = .mark) :
    FirstAccepts acceptors [c] (String.ofList [c]) := by
  have hholds := Lead.holds_of c
  rw [hlead] at hholds
  have hliteral := @FirstAccepts.literal [boolean, symbol, variableName, numeral] _ _
    (marks_reserved c hholds)
  rw [String.toList_ofList] at hliteral
  exact firstAccepts_of_proper (by simp [hlead]) (by simp [hlead]) hliteral

theorem firstAccepts_capitalized {word : String} (h : word ∈ capitalized) :
    FirstAccepts acceptors word.toList
      (if word = "True" ∨ word = "False" then "BOOLEAN" else word) := by
  obtain ⟨c, rest, hword, hlead⟩ := exists_lead_of_capitalized h
  rw [hword]
  apply firstAccepts_of_proper (by simp [hlead]) (by simp [hlead])
  by_cases hboolean : word = "True" ∨ word = "False"
  · have hnot : word ∉ reserved := by
      obtain rfl | rfl := hboolean
      · decide
      · decide
    have haccepts : boolean.Accepts (c :: rest) := by
      rw [boolean_recognizes.accepts_iff, ← hword]
      obtain rfl | rfl := hboolean
      · exact Or.inl rfl
      · exact Or.inr rfl
    rw [if_pos hboolean]
    apply FirstAccepts.after_literals
    · rwa [← hword, String.ofList_toList]
    · exact .here haccepts
  · have hreserved : ∀ word ∈ capitalized, ¬ (word = "True" ∨ word = "False") →
        word ∈ reserved := by decide
    rw [if_neg hboolean, ← hword]
    exact .literal (hreserved word h hboolean)

end Classes

section Heads

variable {c : Char} {rest : List Char}

theorem fits_of_accepted {more : List Char} (h : Accepted acceptors (c :: more)) : Fits c more :=
  ((accepted_iff _).mp h).fits

theorem heads_alone {lexClass : String} (hfirst : FirstAccepts acceptors [c] lexClass)
    (halone : ∀ more, Accepted acceptors (c :: more) → more = []) :
    (Lexeme.token [c] lexClass).Heads acceptors (c :: rest) := by
  have hnothing : rest.takeWhile (fun _ => false) = [] := by cases rest <;> rfl
  have hmatch :
      LongestMatch acceptors (c :: rest) (c :: rest.takeWhile fun _ => false) lexClass := by
    apply longestMatch_run
    · rwa [hnothing]
    · intro more _ haccepted
      simp [halone more haccepted]
  rwa [hnothing] at hmatch

theorem not_newline_of_fits {more : List Char} (hlead : Lead.of c = .symbolic)
    (hfits : Fits c more) : ∀ d ∈ more, (!CharClass.newline.contains d) = true := by
  simp only [Fits, hlead] at hfits
  intro d hd
  obtain hcomment | hsymbolic := hfits
  · obtain ⟨dashes, body, heq, -, hdashes, -, hbody⟩ := (isComment_iff _).mp hcomment
    have hmem : d ∈ dashes ++ body := heq ▸ List.mem_cons_of_mem c hd
    obtain hd | hd := List.mem_append.mp hmem
    · rw [hdashes d hd]
      decide
    · rw [hbody d hd]
      rfl
  · have hall : ∀ e ∈ CharClass.symbols, (!CharClass.newline.contains e) = true :=
      List.all_eq_true.mp (by decide)
    exact hall d (by simpa [CharClass.contains] using hsymbolic d hd)

/-- The rest of a line, right after a run of characters of one kind, begins with none. -/
theorem head_after_run {test other : Char → Bool} {text : List Char} :
    ∀ d ∈ ((text.dropWhile test).takeWhile other).head?, test d = false := by
  intro d hd
  have hhead : (text.dropWhile test).head? = some d := by
    rw [List.head?_takeWhile, Option.mem_def, Option.filter_eq_some_iff] at hd
    exact hd.1
  have hstop := List.head?_dropWhile_not test text
  rw [hhead] at hstop
  exact hstop

theorem heads_comment (hlead : Lead.of c = .symbolic)
    (hlength : 2 ≤ (c :: rest.takeWhile CharClass.symbolic.contains).length)
    (hdashes : ∀ d ∈ c :: rest.takeWhile CharClass.symbolic.contains, d = '-') :
    LongestMatch acceptors (c :: rest)
      (c :: rest.takeWhile CharClass.symbolic.contains ++
        (rest.dropWhile CharClass.symbolic.contains).takeWhile (!CharClass.newline.contains ·))
      triviaClass := by
  -- all of it is on one line, so the match is the longest run without a line end
  have hline : rest.takeWhile CharClass.symbolic.contains ++
      (rest.dropWhile CharClass.symbolic.contains).takeWhile (!CharClass.newline.contains ·) =
        rest.takeWhile (!CharClass.newline.contains ·) := by
    have hall : ∀ d ∈ rest.takeWhile CharClass.symbolic.contains,
        (!CharClass.newline.contains d) = true := by
      intro d hd
      rw [hdashes d (List.mem_cons_of_mem c hd)]
      decide
    rw [← List.takeWhile_append_of_pos hall, List.takeWhile_append_dropWhile]
  rw [List.cons_append, hline]
  apply longestMatch_run
  · rw [← hline, ← List.cons_append]
    apply firstAccepts_comment
    rw [isComment_iff]
    refine ⟨_, _, rfl, hlength, hdashes, head_after_run, ?_⟩
    intro d hd
    simpa using List.mem_takeWhile_imp hd
  · intro more _ haccepted
    exact not_newline_of_fits hlead (fits_of_accepted haccepted)

/-- A comment in front of the text begins with all of its symbolic run, and ends with it
or goes on with another character. -/
theorem symbolic_of_comment {more : List Char} (hmore : more <+: rest)
    (hcomment : IsComment (c :: more))
    (hrun : ¬ (2 ≤ (c :: rest.takeWhile CharClass.symbolic.contains).length ∧
      ∀ d ∈ c :: rest.takeWhile CharClass.symbolic.contains, d = '-')) :
    ∀ d ∈ more, CharClass.symbolic.contains d = true := by
  obtain ⟨dashes, body, heq, hlength, hdashes, hhead, -⟩ := (isComment_iff _).mp hcomment
  have hsymbolic : ∀ d ∈ dashes, CharClass.symbolic.contains d = true := by
    intro d hd
    rw [hdashes d hd]
    decide
  cases body with
  | nil =>
      rw [List.append_nil] at heq
      intro d hd
      exact hsymbolic d (heq ▸ List.mem_cons_of_mem c hd)
  | cons e body =>
      exfalso
      apply hrun
      cases dashes with
      | nil => simp at hlength
      | cons d dashes =>
          rw [List.cons_append] at heq
          obtain ⟨rfl, rfl⟩ := List.cons.inj heq
          obtain ⟨after, rfl⟩ := hmore
          have hstop : CharClass.symbolic.contains e = false := hhead e rfl
          have htake : (dashes ++ e :: body ++ after).takeWhile CharClass.symbolic.contains =
              dashes := by
            rw [List.append_assoc,
              List.takeWhile_append_of_pos fun d hd => hsymbolic d (List.mem_cons_of_mem c hd)]
            simp [hstop]
          rw [htake]
          exact ⟨hlength, hdashes⟩

theorem dashes_of_comment {text : List Char} (hcomment : IsComment text)
    (hsymbolic : ∀ d ∈ text, CharClass.symbolic.contains d = true) :
    2 ≤ text.length ∧ ∀ d ∈ text, d = '-' := by
  obtain ⟨dashes, body, rfl, hlength, hdashes, hhead, -⟩ := (isComment_iff _).mp hcomment
  cases body with
  | nil => simpa using ⟨hlength, hdashes⟩
  | cons e body =>
      have hstop := hhead e rfl
      rw [hsymbolic e (by simp)] at hstop
      cases hstop

theorem heads_symbol (hlead : Lead.of c = .symbolic)
    (hrun : ¬ (2 ≤ (c :: rest.takeWhile CharClass.symbolic.contains).length ∧
      ∀ d ∈ c :: rest.takeWhile CharClass.symbolic.contains, d = '-')) :
    LongestMatch acceptors (c :: rest) (c :: rest.takeWhile CharClass.symbolic.contains) "SYM" := by
  have hsymbolic : ∀ d ∈ rest.takeWhile CharClass.symbolic.contains,
      CharClass.symbolic.contains d = true := by
    intro d hd
    exact List.mem_takeWhile_imp hd
  have hholds := Lead.holds_of c
  rw [hlead] at hholds
  apply longestMatch_run
  · apply firstAccepts_symbol hlead _ hsymbolic
    intro hcomment
    exact hrun (dashes_of_comment hcomment (List.forall_mem_cons.mpr ⟨hholds, hsymbolic⟩))
  · intro more hmore haccepted
    have hfits := fits_of_accepted haccepted
    simp only [Fits, hlead] at hfits
    obtain hcomment | hsymbolic := hfits
    · exact symbolic_of_comment hmore hcomment hrun
    · exact hsymbolic

theorem prefix_iff_le_sharedLength {front text word : List Char} (h : front <+: text) :
    front <+: word ↔ front.length ≤ sharedLength text word := by
  induction front generalizing text word with
  | nil => simp
  | cons c front ih =>
      cases text with
      | nil => simp at h
      | cons d text =>
          obtain ⟨rfl, htext⟩ := List.cons_prefix_cons.mp h
          cases word with
          | nil => simp [sharedLength]
          | cons e word =>
              by_cases heq : c = e
              · simp [sharedLength, heq, ih htext]
              · simp [sharedLength, heq]

theorem foldl_max_lt {lengths : List Nat} {a n : Nat} :
    lengths.foldl max a < n ↔ a < n ∧ ∀ m ∈ lengths, m < n := by
  induction lengths generalizing a with
  | nil => simp
  | cons m lengths ih => rw [List.foldl_cons, ih, Nat.max_lt, List.forall_mem_cons, and_assoc]

theorem agreement_lt_iff {text : List Char} {n : Nat} (hn : 0 < n) :
    agreement text < n ↔ ∀ word ∈ capitalized, sharedLength text word.toList < n := by
  rw [agreement, foldl_max_lt, List.forall_mem_map]
  exact and_iff_right hn

theorem allDead_iff_of_agreement (hlead : Lead.of c = .large) {more : List Char}
    (hmore : more <+: rest) :
    AllDead acceptors (c :: more) ↔ agreement (c :: rest) < (c :: more).length := by
  have hprefix : c :: more <+: c :: rest := List.cons_prefix_cons.mpr ⟨rfl, hmore⟩
  rw [allDead_iff_of_large hlead, agreement_lt_iff (by simp)]
  simp only [prefix_iff_le_sharedLength hprefix, Nat.not_le]

theorem offending_of_large (hlead : Lead.of c = .large) :
    Offending acceptors (c :: rest) ((c :: rest).take (agreement (c :: rest) + 1)) := by
  have hfatal {other : List Char} (h : Fatal acceptors (c :: rest) other) :
      agreement (c :: rest) < other.length := by
    obtain ⟨hnonempty, hinitial, hdead⟩ := h
    cases other with
    | nil => exact absurd rfl hnonempty
    | cons d more =>
        obtain ⟨rfl, hmore⟩ := List.cons_prefix_cons.mp hinitial
        exact (allDead_iff_of_agreement hlead hmore).mp hdead
  by_cases hlt : agreement (c :: rest) < (c :: rest).length
  · refine Or.inl ⟨⟨by simp, List.take_prefix _ _, ?_⟩, ?_⟩
    · rw [List.take_succ_cons, allDead_iff_of_agreement hlead (List.take_prefix _ _),
        List.length_cons, List.length_take]
      simp only [List.length_cons] at hlt
      omega
    · intro other hother
      have hle := hfatal hother
      rw [List.length_take]
      omega
  · refine Or.inr ⟨List.take_of_length_le (by omega), ?_⟩
    intro other hother
    have hle := hfatal hother
    have hshort := hother.2.1.length_le
    omega

theorem exists_capitalized {other : List Char} (hlead : Lead.of c = .large) (hnonempty : other ≠ [])
    (hinitial : other <+: c :: rest) (haccepted : Accepted acceptors other) :
    ∃ word ∈ capitalized, other = word.toList := by
  cases other with
  | nil => exact absurd rfl hnonempty
  | cons d more =>
      obtain ⟨rfl, -⟩ := List.cons_prefix_cons.mp hinitial
      have hfits := fits_of_accepted haccepted
      simpa only [Fits, hlead] using hfits

theorem heads_capital (hlead : Lead.of c = .large) :
    (capital (c :: rest)).Heads acceptors (c :: rest) := by
  cases hfind : capitalized.find? (·.toList.isPrefixOf (c :: rest)) with
  | some word =>
      have hword : word ∈ capitalized := List.mem_of_find?_eq_some hfind
      have htest := List.find?_some hfind
      have hbegins : word.toList <+: c :: rest := List.isPrefixOf_iff_prefix.mp htest
      obtain ⟨d, tail, hcons, -⟩ := exists_lead_of_capitalized hword
      simp only [capital, hfind]
      refine ⟨by simp [hcons], hbegins, firstAccepts_capitalized hword, ?_⟩
      intro other hinitial haccepted
      by_cases hnonempty : other = []
      · simp [hnonempty]
      · obtain ⟨word', hword', rfl⟩ := exists_capitalized hlead hnonempty hinitial haccepted
        -- both begin the text, so one of them begins the other
        obtain h | h := List.prefix_or_prefix_of_prefix hinitial hbegins
        · exact h.length_le
        · rw [capitalized_apart hword hword' h]
  | none =>
      simp only [capital, hfind]
      refine ⟨by simp, ?_, offending_of_large hlead⟩
      intro other hnonempty hinitial haccepted
      obtain ⟨word, hword, rfl⟩ := exists_capitalized hlead hnonempty hinitial haccepted
      exact List.find?_eq_none.mp hfind word hword (List.isPrefixOf_iff_prefix.mpr hinitial)

theorem heads_foreign (hlead : Lead.of c = .foreign) :
    (Lexeme.unrecognized [c]).Heads acceptors (c :: rest) := by
  have hnone {more : List Char} (haccepted : Accepted acceptors (c :: more)) : False := by
    have hfits := fits_of_accepted haccepted
    simp only [Fits, hlead] at hfits
  have hdead : AllDead acceptors [c] := by
    by_contra hlive
    have hword := word_of_live (by simp [hlead]) hlive
    exact hnone ((accepted_iff _).mpr hword)
  refine ⟨by simp, ?_, Or.inl ⟨⟨by simp, by simp, hdead⟩, ?_⟩⟩
  · intro other hnonempty hinitial haccepted
    cases other with
    | nil => exact hnonempty rfl
    | cons d more =>
        obtain ⟨rfl, -⟩ := List.cons_prefix_cons.mp hinitial
        exact hnone haccepted
  · rintro other ⟨hnonempty, -, -⟩
    exact List.length_pos_iff.mpr hnonempty

theorem lexeme_heads (c : Char) (rest : List Char) :
    (lexeme c rest).Heads acceptors (c :: rest) := by
  have hholds := Lead.holds_of c
  have hfits (more : List Char) (h : Accepted acceptors (c :: more)) := fits_of_accepted h
  simp only [lexeme, CharClass.lists_eq_contains]
  unfold Fits at hfits
  cases hlead : Lead.of c with
  | blank =>
      simp only [hlead] at hfits
      exact longestMatch_run (firstAccepts_blanks hlead fun d hd => List.mem_takeWhile_imp hd)
        fun more _ h => hfits more h
  | small =>
      simp only [hlead] at hfits
      exact longestMatch_run (firstAccepts_name hlead fun d hd => List.mem_takeWhile_imp hd)
        fun more _ h => hfits more h
  | zero =>
      simp only [hlead] at hfits hholds
      have hnumeral : IsNumeral [c] := by simp [IsNumeral, hholds]
      exact heads_alone (firstAccepts_numeral (Or.inl hlead) hnumeral) hfits
  | digit =>
      simp only [hlead] at hfits hholds
      apply longestMatch_run _ fun more _ h => hfits more h
      apply firstAccepts_numeral (Or.inr hlead)
      rw [IsNumeral, if_neg (Ne.symm hholds.2)]
      exact ⟨hholds.1, fun d hd => List.mem_takeWhile_imp hd⟩
  | mark =>
      simp only [hlead] at hfits
      exact heads_alone (firstAccepts_mark hlead) hfits
  | symbolic =>
      simp only [operator, CharClass.lists_eq_contains, List.all_eq_true, beq_iff_eq]
      split
      · rename_i hrun
        exact heads_comment hlead hrun.1 hrun.2
      · rename_i hrun
        exact heads_symbol hlead hrun
  | large => exact heads_capital hlead
  | foreign => exact heads_foreign hlead

end Heads

/-- One call in front of a text that is not empty, at any place and after any calls: the
answer is the lexeme that the first character announces, and the source then stands
right after it. -/
theorem next_lexeme (c : Char) (rest : List Char) (position : Position)
    (marked : Option (List Char × Position)) (preferences : LexicalPreferences)
    (metrics : LexicalMetrics) :
    let source : TextSource := ⟨c :: rest, position, marked⟩
    let reply := Tokenizer.next
      ⟨source, acceptors, { preferences with maxTokenLength := none }, metrics⟩
    reply.result = (lexeme c rest).answer position ∧
      reply.rest.source.StandsAfter source (lexeme c rest).taken := by
  intro source reply
  exact Scan.token_of_heads lawful (lexeme_heads c rest)

example : lexeme 'I' "nteger1".toList = .token "Integer".toList "Integer" := by decide

example : lexeme 'I' "nteGer".toList = .unrecognized "InteG".toList := by decide

example : lexeme '-' "- no\nif".toList = .token "-- no".toList triviaClass := by decide

end Lookahead.MicroHaskell
