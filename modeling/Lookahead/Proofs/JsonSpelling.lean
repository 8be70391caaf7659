import Lookahead.Json.Basic
import Lookahead.Json.Reader

/-!
The texts of a JSON document. One document has many of them: blanks may stand between
its parts, and a character of a string may stand for itself or be escaped, by a letter
or by its code units. `Spells` says which texts these are. What the writer appends to
a text is one of them, in every layout and at every depth.
-/
namespace Lookahead.Json

def Blank (text : List Char) : Prop := ∀ c ∈ text, isBlank c = true

/-- A code unit as four hexadecimal digits. -/
inductive SpellsUnit : Nat → List Char → Prop where
  | digits {a b c d : Char} {w x y z : Nat} (ha : Digits.hexValue? a = some w)
      (hb : Digits.hexValue? b = some x) (hc : Digits.hexValue? c = some y)
      (hd : Digits.hexValue? d = some z) :
      SpellsUnit (w * 4096 + x * 256 + y * 16 + z) [a, b, c, d]

/-- The letters after a backslash, each with the character that it stands for. -/
def letterEscapes : List (Char × Char) :=
  [('\x22', '\x22'), ('\\', '\\'), ('/', '/'), ('b', '\x08'), ('f', '\x0c'), ('n', '\n'),
    ('r', '\r'), ('t', '\t')]

/-- A character as it can stand in a string. Every character has an escape by code
units; a character that needs two of them has a surrogate pair. -/
inductive SpellsChar (c : Char) : List Char → Prop where
  | plain (hquote : c ≠ '\x22') (hbackslash : c ≠ '\\') (hprintable : 0x20 ≤ c.toNat) :
      SpellsChar c [c]
  | letter {letter : Char} (h : (letter, c) ∈ letterEscapes) : SpellsChar c ['\\', letter]
  | unit {text : List Char} (h : SpellsUnit c.toNat text) : SpellsChar c ('\\' :: 'u' :: text)
  | pair {leading trailing : List Char} (hlarge : 0x10000 ≤ c.toNat)
      (hleading : SpellsUnit (0xD800 + (c.toNat - 0x10000) / 0x400) leading)
      (htrailing : SpellsUnit (0xDC00 + (c.toNat - 0x10000) % 0x400) trailing) :
      SpellsChar c ('\\' :: 'u' :: (leading ++ '\\' :: 'u' :: trailing))

inductive SpellsChars : List Char → List Char → Prop where
  | nil : SpellsChars [] []
  | cons {c : Char} {chars text rest : List Char} (hfirst : SpellsChar c text)
      (hrest : SpellsChars chars rest) : SpellsChars (c :: chars) (text ++ rest)

inductive SpellsString (s : String) : List Char → Prop where
  | quoted {text : List Char} (h : SpellsChars s.toList text) :
      SpellsString s ('\x22' :: (text ++ ['\x22']))

/-- What stands before a part of a list or an object: a comma, unless it is the first. -/
inductive Separates : Bool → List Char → Prop where
  | first {blanks : List Char} (h : Blank blanks) : Separates true blanks
  | later {before after : List Char} (hbefore : Blank before) (hafter : Blank after) :
      Separates false (before ++ ',' :: after)

/-- What stands between a name and its value. -/
inductive SpellsColon : List Char → Prop where
  | colon {before after : List Char} (hbefore : Blank before) (hafter : Blank after) :
      SpellsColon (before ++ ':' :: after)

mutual

def Spells : Json → List Char → Prop
  | .null, text => text = "null".toList
  | .bool true, text => text = "true".toList
  | .bool false, text => text = "false".toList
  | .num n, text => text = (toString n).toList
  | .str s, text => SpellsString s text
  | .arr items, text => ∃ rest, text = '[' :: rest ∧ SpellsItems true items rest
  | .obj fields, text => ∃ rest, text = '\x7b' :: rest ∧ SpellsFields true fields rest

/-- The rest of a list, its closing bracket included; no elements came before it if
it is the first of them. -/
def SpellsItems (first : Bool) : List Json → List Char → Prop
  | [], text => ∃ blanks, Blank blanks ∧ text = blanks ++ [']']
  | item :: items, text => ∃ lead value rest, Separates first lead ∧ Spells item value ∧
      SpellsItems false items rest ∧ text = lead ++ (value ++ rest)

def SpellsFields (first : Bool) : List (String × Json) → List Char → Prop
  | [], text => ∃ blanks, Blank blanks ∧ text = blanks ++ ['\x7d']
  | (name, field) :: fields, text => ∃ lead key colon value rest, Separates first lead ∧
      SpellsString name key ∧ SpellsColon colon ∧ Spells field value ∧
      SpellsFields false fields rest ∧ text = lead ++ (key ++ (colon ++ (value ++ rest)))

end

theorem hexValue?_hexDigit {n : Nat} (h : n < 16) : Digits.hexValue? (hexDigit n) = some n := by
  revert n
  decide

theorem escape_spells (c : Char) : SpellsChar c (escape c) := by
  unfold escape
  iterate 7
    split
    · subst c
      exact .letter (by decide)
  split
  · have hunit : SpellsUnit (0 * 4096 + 0 * 256 + c.toNat / 16 * 16 + c.toNat % 16)
        ['0', '0', hexDigit (c.toNat / 16), hexDigit (c.toNat % 16)] :=
      .digits rfl rfl (hexValue?_hexDigit (by omega)) (hexValue?_hexDigit (by omega))
    have hvalue : 0 * 4096 + 0 * 256 + c.toNat / 16 * 16 + c.toNat % 16 = c.toNat := by omega
    rw [hvalue] at hunit
    exact .unit hunit
  · rename_i hquote hbackslash _ _ _ _ _ hcontrol
    exact .plain hquote hbackslash (Nat.le_of_not_lt hcontrol)

theorem flatMap_escape_spells (chars : List Char) : SpellsChars chars (chars.flatMap escape) := by
  induction chars with
  | nil => exact .nil
  | cons c chars ih => exact .cons (escape_spells c) ih

theorem quote_spells (s : String) : SpellsString s (quote s).toList := by
  have htext : (quote s).toList = '\x22' :: (s.toList.flatMap escape ++ ['\x22']) := by
    simp [quote]
  rw [htext]
  exact .quoted (flatMap_escape_spells s.toList)

theorem blank_nil : Blank [] := by
  intro c hc
  cases hc

namespace Layout

theorem lineBreak_blank (l : Layout) (depth : Nat) : Blank (l.lineBreak depth).toList := by
  intro c hc
  cases l with
  | compact => simp [lineBreak] at hc
  | indented =>
      simp only [lineBreak, String.toList_ofList, List.mem_cons, List.mem_replicate] at hc
      obtain rfl | ⟨-, rfl⟩ := hc <;> rfl

theorem comma_separates (l : Layout) (depth : Nat) :
    Separates false (',' :: (l.lineBreak depth).toList) :=
  @Separates.later [] _ blank_nil (l.lineBreak_blank depth)

theorem colon_spells (l : Layout) : SpellsColon l.colon.toList := by
  cases l with
  | compact => exact @SpellsColon.colon [] [] blank_nil blank_nil
  | indented => exact @SpellsColon.colon [] [' '] blank_nil (by simp [Blank, isBlank])

end Layout

-- The texts appended for the rest of a list or an object end before the closing bracket,
-- in front of which the caller breaks the line.
mutual

theorem write_spells (l : Layout) : ∀ (depth : Nat) (out : String) (j : Json),
    ∃ text, (write l depth out j).toList = out.toList ++ text ∧ Spells j text
  | depth, out, .null => ⟨"null".toList, by simp [write], rfl⟩
  | depth, out, .bool true => ⟨"true".toList, by simp [write], rfl⟩
  | depth, out, .bool false => ⟨"false".toList, by simp [write], rfl⟩
  | depth, out, .num n => ⟨(toString n).toList, by simp [write], rfl⟩
  | depth, out, .str s => ⟨(quote s).toList, by simp [write], quote_spells s⟩
  | depth, out, .arr [] => ⟨['[', ']'], by simp [write], [']'], rfl, [], blank_nil, rfl⟩
  | depth, out, .arr (item :: items) => by
      obtain ⟨value, hvalue, hitem⟩ :=
        write_spells l (depth + 1) (out ++ "[" ++ l.lineBreak (depth + 1)) item
      obtain ⟨rest, hrest, hitems⟩ := writeItems_spells l depth
        (write l (depth + 1) (out ++ "[" ++ l.lineBreak (depth + 1)) item) items
      refine ⟨'[' :: ((l.lineBreak (depth + 1)).toList ++
        (value ++ (rest ++ ((l.lineBreak depth).toList ++ [']'])))), ?_, _, rfl, ?_⟩
      · simp [write, hrest, hvalue]
      · exact ⟨_, value, _, .first (l.lineBreak_blank (depth + 1)), hitem,
          hitems _ (l.lineBreak_blank depth), rfl⟩
  | depth, out, .obj [] =>
      ⟨['\x7b', '\x7d'], by simp [write], ['\x7d'], rfl, [], blank_nil, rfl⟩
  | depth, out, .obj ((name, field) :: fields) => by
      obtain ⟨value, hvalue, hfield⟩ := write_spells l (depth + 1)
        (out ++ "\x7b" ++ l.lineBreak (depth + 1) ++ quote name ++ l.colon) field
      obtain ⟨rest, hrest, hfields⟩ := writeFields_spells l depth (write l (depth + 1)
        (out ++ "\x7b" ++ l.lineBreak (depth + 1) ++ quote name ++ l.colon) field) fields
      refine ⟨'\x7b' :: ((l.lineBreak (depth + 1)).toList ++ ((quote name).toList ++
        (l.colon.toList ++ (value ++ (rest ++ ((l.lineBreak depth).toList ++ ['\x7d'])))))),
        ?_, _, rfl, ?_⟩
      · simp [write, hrest, hvalue]
      · exact ⟨_, _, _, value, _, .first (l.lineBreak_blank (depth + 1)), quote_spells name,
          l.colon_spells, hfield, hfields _ (l.lineBreak_blank depth), rfl⟩

theorem writeItems_spells (l : Layout) : ∀ (depth : Nat) (out : String) (items : List Json),
    ∃ text, (writeItems l depth out items).toList = out.toList ++ text ∧
      ∀ blanks, Blank blanks → SpellsItems false items (text ++ (blanks ++ [']']))
  | depth, out, [] => ⟨[], by simp [writeItems], fun blanks hblanks => ⟨blanks, hblanks, rfl⟩⟩
  | depth, out, item :: items => by
      obtain ⟨value, hvalue, hitem⟩ :=
        write_spells l (depth + 1) (out ++ "," ++ l.lineBreak (depth + 1)) item
      obtain ⟨rest, hrest, hitems⟩ := writeItems_spells l depth
        (write l (depth + 1) (out ++ "," ++ l.lineBreak (depth + 1)) item) items
      refine ⟨',' :: ((l.lineBreak (depth + 1)).toList ++ (value ++ rest)), ?_, ?_⟩
      · simp [writeItems, hrest, hvalue]
      · intro blanks hblanks
        exact ⟨_, value, _, l.comma_separates (depth + 1), hitem, hitems blanks hblanks, by simp⟩

theorem writeFields_spells (l : Layout) : ∀ (depth : Nat) (out : String)
    (fields : List (String × Json)),
    ∃ text, (writeFields l depth out fields).toList = out.toList ++ text ∧
      ∀ blanks, Blank blanks → SpellsFields false fields (text ++ (blanks ++ ['\x7d']))
  | depth, out, [] => ⟨[], by simp [writeFields], fun blanks hblanks => ⟨blanks, hblanks, rfl⟩⟩
  | depth, out, (name, field) :: fields => by
      obtain ⟨value, hvalue, hfield⟩ := write_spells l (depth + 1)
        (out ++ "," ++ l.lineBreak (depth + 1) ++ quote name ++ l.colon) field
      obtain ⟨rest, hrest, hfields⟩ := writeFields_spells l depth (write l (depth + 1)
        (out ++ "," ++ l.lineBreak (depth + 1) ++ quote name ++ l.colon) field) fields
      refine ⟨',' :: ((l.lineBreak (depth + 1)).toList ++ ((quote name).toList ++
        (l.colon.toList ++ (value ++ rest)))), ?_, ?_⟩
      · simp [writeFields, hrest, hvalue]
      · intro blanks hblanks
        exact ⟨_, _, _, value, _, l.comma_separates (depth + 1), quote_spells name,
          l.colon_spells, hfield, hfields blanks hblanks, by simp⟩

end

theorem pretty_spells (j : Json) : Spells j j.pretty.toList := by
  obtain ⟨text, htext, hspells⟩ := write_spells .indented 0 "" j
  rw [pretty, htext]
  exact hspells

end Lookahead.Json
