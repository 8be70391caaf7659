import Lookahead.Proofs.JsonSpelling

/-!
Reading a document from any of its texts. Whatever blanks and escapes were chosen, a
reader takes the text of its value off the front and leaves what follows. The loops
over elements and fields run on fuel; a text is longer than the number of its parts,
so it is fuel enough for itself.
-/
namespace Lookahead.Json

theorem skipBlanks_append {blanks : List Char} (h : Blank blanks) (text : List Char) :
    skipBlanks (blanks ++ text) = skipBlanks text := by
  induction blanks with
  | nil => rfl
  | cons c blanks ih =>
      have hrest : Blank blanks := fun b hb => h b (List.mem_cons_of_mem c hb)
      rw [List.cons_append, skipBlanks, List.dropWhile_cons_of_pos (h c List.mem_cons_self)]
      exact ih hrest

theorem skipBlanks_cons {c : Char} (h : isBlank c = false) (rest : List Char) :
    skipBlanks (c :: rest) = c :: rest :=
  List.dropWhile_cons_of_neg (by simp [h])

theorem skipBlanks_of_blank {blanks : List Char} (h : Blank blanks) : skipBlanks blanks = [] := by
  have hskip := skipBlanks_append h []
  rwa [List.append_nil] at hskip

/-- The reader takes a text off the front, with the blanks before it, whatever follows. -/
def Takes {α : Type} (read : List Char → Except Flaw (α × List Char)) (text : List Char)
    (value : α) : Prop :=
  ∀ blanks rest, Blank blanks → read (blanks ++ (text ++ rest)) = .ok (value, rest)

section Strings

theorem hexQuad_spells {n : Nat} {text : List Char} (h : SpellsUnit n text) (rest : List Char) :
    hexQuad (text ++ rest) = .ok (n, rest) := by
  obtain ⟨ha, hb, hc, hd⟩ := h
  simp only [List.cons_append, List.nil_append, hexQuad, ha, hb, hc, hd]

theorem escapedBy?_letter {letter c : Char} (h : (letter, c) ∈ letterEscapes) :
    letter ≠ 'u' ∧ escapedBy? letter = some c := by
  have hall : ∀ pair ∈ letterEscapes, pair.1 ≠ 'u' ∧ escapedBy? pair.1 = some pair.2 := by decide
  exact hall _ h

/-- A character is no surrogate, so one code unit is the character. -/
theorem unescapeUnicode_unit {c : Char} {text : List Char} (h : SpellsUnit c.toNat text)
    (rest : List Char) : unescapeUnicode (text ++ rest) = .ok (c, rest) := by
  have hvalid : c.toNat.isValidChar := c.valid
  simp only [Nat.isValidChar] at hvalid
  rw [unescapeUnicode, hexQuad_spells h]
  simp only
  rw [if_neg (by omega), if_neg (by omega), Char.ofNat_toNat]

theorem unescapeUnicode_pair {c : Char} {leading trailing : List Char}
    (hlarge : 0x10000 ≤ c.toNat)
    (hleading : SpellsUnit (0xD800 + (c.toNat - 0x10000) / 0x400) leading)
    (htrailing : SpellsUnit (0xDC00 + (c.toNat - 0x10000) % 0x400) trailing) (rest : List Char) :
    unescapeUnicode (leading ++ ('\\' :: 'u' :: (trailing ++ rest))) = .ok (c, rest) := by
  have hvalid : c.toNat.isValidChar := c.valid
  simp only [Nat.isValidChar] at hvalid
  have hvalue : 0x10000 + (0xD800 + (c.toNat - 0x10000) / 0x400 - 0xD800) * 0x400 +
      (0xDC00 + (c.toNat - 0x10000) % 0x400 - 0xDC00) = c.toNat := by
    omega
  rw [unescapeUnicode, hexQuad_spells hleading]
  simp only
  rw [if_neg (by omega), if_pos (by omega)]
  simp only [trailingSurrogate, hexQuad_spells htrailing]
  rw [if_pos (by omega), hvalue, Char.ofNat_toNat]

theorem stringBody_escape {text rest : List Char} {c : Char} (h : unescape text = .ok (c, rest))
    (read : List Char) : stringBody read ('\\' :: text) = stringBody (c :: read) rest := by
  rw [stringBody, if_neg (by decide), if_pos rfl]
  split
  · rename_i hflaw
    rw [h] at hflaw
    cases hflaw
  · rename_i hread
    rw [h] at hread
    cases hread
    rfl

theorem stringBody_char {c : Char} {text : List Char} (h : SpellsChar c text)
    (read rest : List Char) : stringBody read (text ++ rest) = stringBody (c :: read) rest := by
  cases h with
  | plain hquote hbackslash hprintable =>
      have hcontrol : ¬ c.toNat < 0x20 := Nat.not_lt.mpr hprintable
      rw [List.singleton_append, stringBody, if_neg hquote, if_neg hbackslash, if_neg hcontrol]
  | letter hletter =>
      obtain ⟨hunicode, hescaped⟩ := escapedBy?_letter hletter
      apply stringBody_escape
      rw [List.append_eq, List.singleton_append, unescape, if_neg hunicode, hescaped]
  | unit hunit =>
      apply stringBody_escape
      rw [List.append_eq, List.cons_append, unescape, if_pos rfl]
      exact unescapeUnicode_unit hunit rest
  | pair hlarge hleading htrailing =>
      apply stringBody_escape
      rw [List.append_eq, List.cons_append, List.append_assoc, unescape, if_pos rfl]
      exact unescapeUnicode_pair hlarge hleading htrailing rest

theorem stringBody_chars {chars text : List Char} (h : SpellsChars chars text)
    (read rest : List Char) :
    stringBody read (text ++ '\x22' :: rest) =
      .ok (String.ofList (read.reverse ++ chars), rest) := by
  induction h generalizing read with
  | nil =>
      rw [List.nil_append, List.append_nil, stringBody]
      simp
  | @cons c chars text texts hfirst hrest ih =>
      rw [List.append_assoc, stringBody_char hfirst, ih]
      simp

theorem readString_takes {s : String} {text : List Char} (h : SpellsString s text) :
    Takes readString text s := by
  intro blanks rest hblanks
  obtain ⟨hchars⟩ := h
  rw [readString, skipBlanks_append hblanks, List.cons_append, skipBlanks_cons rfl,
    List.append_assoc, List.singleton_append]
  simp only [stringBody_chars hchars, List.reverse_nil, List.nil_append, String.ofList_toList]

theorem readNullable_takes_null : Takes readNullable "null".toList none := by
  intro blanks rest hblanks
  have htext : "null".toList ++ rest = 'n' :: 'u' :: 'l' :: 'l' :: rest := rfl
  rw [readNullable, skipBlanks_append hblanks, htext, skipBlanks_cons rfl]
  simp [word]

theorem readNullable_takes_string {s : String} {text : List Char} (h : SpellsString s text) :
    Takes readNullable text (some s) := by
  intro blanks rest hblanks
  have hread := readString_takes h [] rest blank_nil
  obtain ⟨hchars⟩ := h
  rw [readNullable, skipBlanks_append hblanks, List.cons_append, skipBlanks_cons rfl]
  rw [List.nil_append, List.cons_append] at hread
  split
  · rename_i heq
    simp at heq
  · rw [hread]

end Strings

section Parts

/-- The text begins with the first character of some value. -/
def Opens (text : List Char) : Prop :=
  ∃ c rest, text = c :: rest ∧ isBlank c = false ∧ c ≠ ']'

theorem Opens.length_pos {text : List Char} (h : Opens text) : 0 < text.length := by
  obtain ⟨c, rest, rfl, -⟩ := h
  exact Nat.zero_lt_succ _

theorem opens_of_isDigit {text : List Char} (hnonempty : text ≠ [])
    (hdigits : ∀ c ∈ text, c.isDigit = true) : Opens text := by
  cases text with
  | nil => exact absurd rfl hnonempty
  | cons c rest =>
      have hc := hdigits c List.mem_cons_self
      refine ⟨c, rest, rfl, ?_, ?_⟩
      · cases hblank : isBlank c with
        | false => rfl
        | true =>
            simp only [isBlank, Bool.or_eq_true, beq_iff_eq] at hblank
            obtain ((rfl | rfl) | rfl) | rfl := hblank <;> cases hc
      · rintro rfl
        cases hc

theorem Spells.opens {j : Json} {text : List Char} (h : Spells j text) : Opens text := by
  cases j with
  | null =>
      obtain rfl : text = "null".toList := h
      exact ⟨'n', _, rfl, rfl, by decide⟩
  | bool value =>
      cases value with
      | true =>
          obtain rfl : text = "true".toList := h
          exact ⟨'t', _, rfl, rfl, by decide⟩
      | false =>
          obtain rfl : text = "false".toList := h
          exact ⟨'f', _, rfl, rfl, by decide⟩
  | num n =>
      obtain rfl : text = (toString n).toList := h
      have htext : (toString n).toList = Nat.toDigits 10 n := String.toList_ofList
      rw [htext]
      exact opens_of_isDigit Nat.toDigits_ne_nil fun c hc =>
        Nat.isDigit_of_mem_toDigits (by decide) (Nat.le_refl 10) hc
  | str s =>
      obtain ⟨-⟩ : SpellsString s text := h
      exact ⟨'\x22', _, rfl, rfl, by decide⟩
  | arr items =>
      obtain ⟨rest, rfl, -⟩ := h
      exact ⟨'[', rest, rfl, rfl, by decide⟩
  | obj fields =>
      obtain ⟨rest, rfl, -⟩ := h
      exact ⟨'\x7b', rest, rfl, rfl, by decide⟩

theorem nextItem_closed {blanks : List Char} (h : Blank blanks) (first : Bool)
    (rest : List Char) : nextItem first (blanks ++ ']' :: rest) = .ok (.closed rest) := by
  rw [nextItem, skipBlanks_append h, skipBlanks_cons rfl]
  rfl

theorem nextItem_more {first : Bool} {lead text : List Char} (hlead : Separates first lead)
    (htext : Opens text) : nextItem first (lead ++ text) = .ok (.more () text) := by
  obtain ⟨c, rest, rfl, hblank, hclosing⟩ := htext
  cases hlead with
  | first hblanks =>
      rw [nextItem, skipBlanks_append hblanks, skipBlanks_cons hblank]
      simp
  | @later before after hbefore hafter =>
      rw [nextItem, List.append_assoc, skipBlanks_append hbefore, List.cons_append,
        skipBlanks_cons rfl]
      split
      · rename_i heq
        cases heq
      · rename_i heq
        simp at heq
      · rename_i heq
        cases heq
        rw [if_neg Bool.false_ne_true, if_pos rfl, skipBlanks_append hafter,
          skipBlanks_cons hblank]
        split
        · rename_i heq
          cases heq
        · rename_i heq
          exact absurd (List.cons.inj heq).1 hclosing
        · rfl

theorem nextField_closed {blanks : List Char} (h : Blank blanks) (first : Bool)
    (rest : List Char) : nextField first (blanks ++ '\x7d' :: rest) = .ok (.closed rest) := by
  rw [nextField, skipBlanks_append h, skipBlanks_cons rfl]
  rfl

theorem nextField_more {first : Bool} {lead key : List Char} {name : String}
    (hlead : Separates first lead) (hkey : SpellsString name key) (rest : List Char) :
    nextField first (lead ++ (key ++ rest)) = .ok (.more name rest) := by
  obtain ⟨hchars⟩ := hkey
  have hbody := stringBody_chars hchars [] rest
  cases hlead with
  | first hblanks =>
      rw [nextField, skipBlanks_append hblanks, List.cons_append, skipBlanks_cons rfl]
      simp [hbody]
  | later hbefore hafter =>
      rw [nextField, List.append_assoc, skipBlanks_append hbefore, List.cons_append,
        skipBlanks_cons rfl]
      simp [skipBlanks_append hafter, skipBlanks_cons, isBlank, hbody]

theorem colon_spelled {text : List Char} (h : SpellsColon text) (rest : List Char) :
    ∃ blanks, Blank blanks ∧ colon (text ++ rest) = .ok (blanks ++ rest) := by
  obtain ⟨hbefore, hafter⟩ := h
  refine ⟨_, hafter, ?_⟩
  rw [colon, List.append_assoc, skipBlanks_append hbefore, List.cons_append, skipBlanks_cons rfl]
  rfl

theorem SpellsItems.length_lt {first : Bool} {docs : List Json} {text : List Char}
    (h : SpellsItems first docs text) : docs.length < text.length := by
  induction docs generalizing first text with
  | nil =>
      obtain ⟨blanks, -, rfl⟩ := h
      simp
  | cons doc docs ih =>
      obtain ⟨lead, value, rest, -, hvalue, hrest, rfl⟩ := h
      have hpos := hvalue.opens.length_pos
      have hlater := ih hrest
      simp only [List.length_cons, List.length_append]
      omega

theorem SpellsFields.length_lt {first : Bool} {fields : List (String × Json)} {text : List Char}
    (h : SpellsFields first fields text) : fields.length < text.length := by
  induction fields generalizing first text with
  | nil =>
      obtain ⟨blanks, -, rfl⟩ := h
      simp
  | cons field fields ih =>
      obtain ⟨lead, key, colon, value, rest, -, -, -, hvalue, hrest, rfl⟩ := h
      have hpos := hvalue.opens.length_pos
      have hlater := ih hrest
      simp only [List.length_cons, List.length_append]
      omega

end Parts

section Lists

variable {α : Type} {item : List Char → Except Flaw (α × List Char)} {encode : α → Json}
  (hitem : ∀ {a text}, Spells (encode a) text → Takes item text a)
include hitem

theorem items_spells {first : Bool} {values : List α} {text : List Char}
    (h : SpellsItems first (values.map encode) text) {fuel : List Char}
    (hfuel : values.length < fuel.length) (read : List α) (rest : List Char) :
    items item fuel first read (text ++ rest) = .ok (read.reverse ++ values, rest) := by
  induction values generalizing first text fuel read with
  | nil =>
      obtain ⟨blanks, hblanks, rfl⟩ := h
      cases fuel with
      | nil => cases hfuel
      | cons f fuel =>
          rw [items, List.append_assoc, List.singleton_append, nextItem_closed hblanks]
          simp
  | cons a values ih =>
      obtain ⟨lead, value, tail, hlead, hvalue, htail, rfl⟩ := h
      cases fuel with
      | nil => cases hfuel
      | cons f fuel =>
          have hopens : Opens (value ++ (tail ++ rest)) := by
            obtain ⟨c, more, rfl, hc⟩ := hvalue.opens
            exact ⟨c, more ++ (tail ++ rest), rfl, hc⟩
          have hread := hitem hvalue [] (tail ++ rest) blank_nil
          rw [List.nil_append] at hread
          rw [items, List.append_assoc, List.append_assoc, nextItem_more hlead hopens]
          simp only [hread]
          rw [ih htail (Nat.lt_of_succ_lt_succ hfuel)]
          simp

/-- A list is read element by element, from each of its texts. -/
theorem readList_takes {values : List α} {text : List Char}
    (h : Spells (.arr (values.map encode)) text) : Takes (readList item) text values := by
  intro blanks rest hblanks
  obtain ⟨body, rfl, hbody⟩ := h
  have hlength := hbody.length_lt
  rw [List.length_map] at hlength
  rw [readList, skipBlanks_append hblanks, List.cons_append, skipBlanks_cons rfl]
  simp only
  rw [items_spells hitem hbody (by rw [List.length_append]; omega)]
  rfl

end Lists

section Fields

variable {α β δ : Type} {known : List (KnownField δ)} {finish : δ → Except Flaw α} {d : δ}

theorem readField_once {name : String} {get : δ → Option β} {set : δ → β → δ}
    {item : List Char → Except Flaw (β × List Char)} {b : β} {colonText value : List Char}
    (hknown : (known.find? fun field => field.name = name) = some (.once name get set item))
    (hfresh : get d = none) (hcolon : SpellsColon colonText) (hvalue : Takes item value b)
    (rest : List Char) :
    readField known d name (colonText ++ (value ++ rest)) = .ok (set d b, rest) := by
  obtain ⟨blanks, hblanks, hafter⟩ := colon_spelled hcolon (value ++ rest)
  have hread := hvalue blanks rest hblanks
  simp [readField, hknown, KnownField.once, hfresh, hafter, hread, bind, Except.bind, pure,
    Except.pure]

/-- A known field that is there for the first time goes into the draft. -/
theorem readFields_more {name : String} {get : δ → Option β} {set : δ → β → δ}
    {item : List Char → Except Flaw (β × List Char)} {b : β} {first : Bool}
    {lead key colonText value : List Char}
    (hknown : (known.find? fun field => field.name = name) = some (.once name get set item))
    (hfresh : get d = none) (hlead : Separates first lead) (hkey : SpellsString name key)
    (hcolon : SpellsColon colonText) (hvalue : Takes item value b) (f : Char)
    (fuel rest : List Char) :
    readFields known finish (f :: fuel) first d
        (lead ++ (key ++ (colonText ++ (value ++ rest)))) =
      readFields known finish fuel false (set d b) rest := by
  rw [readFields, nextField_more hlead hkey]
  simp only [readField_once hknown hfresh hcolon hvalue rest]

theorem readFields_closed {blanks : List Char} {a : α} (h : Blank blanks)
    (hfinish : finish d = .ok a) (first : Bool) (f : Char) (fuel rest : List Char) :
    readFields known finish (f :: fuel) first d (blanks ++ '\x7d' :: rest) = .ok (a, rest) := by
  rw [readFields, nextField_closed h]
  simp only [hfinish]

end Fields

end Lookahead.Json
