import Lookahead.Grammar.TableFile
import Lookahead.Proofs.JsonReading
import Lookahead.Proofs.TableRules

/-!
Tables in JSON. A list of rules, with repeated cells or without, is loaded from every
text of its document, and then each cell holds the last rule listed for it. The
document of a table lists its rules, so a table is loaded from its own text as it was;
and the text depends on nothing but the start symbol and what the cells hold.
-/
namespace Lookahead

open Json

namespace TableRule

theorem readNullable_takes {lookahead : Option String} {text : List Char}
    (h : Spells (match lookahead with | none => .null | some lexClass => .str lexClass) text) :
    Takes readNullable text lookahead := by
  cases lookahead with
  | none =>
      obtain rfl : text = "null".toList := h
      exact readNullable_takes_null
  | some lexClass => exact readNullable_takes_string h

theorem readList_takes_strings {strings : List String} {text : List Char}
    (h : Spells (.arr (strings.map .str)) text) : Takes (readList readString) text strings := by
  have hitem : ∀ {symbol text}, Spells (.str symbol) text → Takes readString text symbol :=
    readString_takes
  exact readList_takes hitem h

theorem read_takes {r : TableRule} {text : List Char} (h : Spells r.toJson text) :
    Takes read text r := by
  intro blanks rest hblanks
  obtain ⟨body, rfl, hbody⟩ := h
  have hlength := hbody.length_lt
  have hfields : ∀ fuel : List Char, 3 < fuel.length →
      readFields knownFields Draft.finish fuel true {} (body ++ rest) = .ok (r, rest) := by
    intro fuel hfuel
    obtain ⟨lead, key, colon, value, more, hlead, hkey, hcolon, hvalue, hmore, rfl⟩ := hbody
    obtain ⟨lead₂, key₂, colon₂, value₂, more₂, hlead₂, hkey₂, hcolon₂, hvalue₂, hmore, rfl⟩ :=
      hmore
    obtain ⟨lead₃, key₃, colon₃, value₃, more₃, hlead₃, hkey₃, hcolon₃, hvalue₃, hmore, rfl⟩ :=
      hmore
    obtain ⟨ending, hending, rfl⟩ := hmore
    match fuel, hfuel with
    | _ :: _ :: _ :: f :: fuel, _ =>
        simp only [List.append_assoc]
        rw [readFields_more rfl rfl hlead hkey hcolon (readString_takes hvalue),
          readFields_more rfl rfl hlead₂ hkey₂ hcolon₂ (readNullable_takes hvalue₂),
          readFields_more rfl rfl hlead₃ hkey₃ hcolon₃ (readList_takes_strings hvalue₃)]
        exact readFields_closed hending (by rfl) false f fuel rest
  rw [read, skipBlanks_append hblanks, List.cons_append, skipBlanks_cons rfl]
  exact hfields _ (by rw [List.length_append]; exact Nat.lt_add_right _ hlength)

end TableRule

namespace ParseTable

/-- The document with the given rules, in the given order. -/
def document (startSymbol : String) (rules : List TableRule) : Json :=
  .obj [("start_symbol", .str startSymbol), ("rules", .arr (rules.map TableRule.toJson))]

theorem toJson_eq (t : ParseTable) : t.toJson = document t.startSymbol t.rules := rfl

theorem read_takes {startSymbol : String} {rules : List TableRule} {text : List Char}
    (h : Spells (document startSymbol rules) text) :
    Takes read text (ofRules startSymbol rules) := by
  intro blanks rest hblanks
  obtain ⟨body, rfl, hbody⟩ := h
  have hlength := hbody.length_lt
  have hfields : ∀ fuel : List Char, 2 < fuel.length →
      readFields knownFields Draft.finish fuel true {} (body ++ rest) =
        .ok (ofRules startSymbol rules, rest) := by
    intro fuel hfuel
    obtain ⟨lead, key, colon, value, more, hlead, hkey, hcolon, hvalue, hmore, rfl⟩ := hbody
    obtain ⟨lead₂, key₂, colon₂, value₂, more₂, hlead₂, hkey₂, hcolon₂, hvalue₂, hmore, rfl⟩ :=
      hmore
    obtain ⟨ending, hending, rfl⟩ := hmore
    match fuel, hfuel with
    | _ :: _ :: f :: fuel, _ =>
        simp only [List.append_assoc]
        rw [readFields_more rfl rfl hlead hkey hcolon (readString_takes hvalue),
          readFields_more rfl rfl hlead₂ hkey₂ hcolon₂
            (readList_takes TableRule.read_takes hvalue₂)]
        exact readFields_closed hending (by rfl) false f fuel rest
  rw [read, skipBlanks_append hblanks, List.cons_append, skipBlanks_cons rfl]
  exact hfields _ (by rw [List.length_append]; exact Nat.lt_add_right _ hlength)

/-- A text of the document, between any blanks. -/
def Records (text : List Char) (startSymbol : String) (rules : List TableRule) : Prop :=
  ∃ lead body trail, Blank lead ∧ Spells (document startSymbol rules) body ∧ Blank trail ∧
    text = lead ++ (body ++ trail)

theorem ofJson_of_records {text : List Char} {startSymbol : String} {rules : List TableRule}
    (h : Records text startSymbol rules) : ofJson text = .ok (ofRules startSymbol rules) := by
  obtain ⟨lead, body, trail, hlead, hbody, htrail, rfl⟩ := h
  have hread := read_takes hbody lead trail hlead
  simp [ofJson, hread, endOfText, skipBlanks_of_blank htrail, bind, Except.bind, pure, Except.pure]

theorem records_pretty (startSymbol : String) (rules : List TableRule) :
    Records (document startSymbol rules).pretty.toList startSymbol rules :=
  ⟨[], _, [], blank_nil, pretty_spells _, blank_nil, by simp⟩

theorem Ordered.ofJson_toJson {t : ParseTable} (h : t.Ordered) :
    ofJson t.toJson.pretty.toList = .ok t := by
  rw [toJson_eq, ofJson_of_records (records_pretty _ _), h.ofRules_rules]

/-- A table that was filled with rules has the last right-hand side given for each cell,
and lists each filled cell once and in order, as a sort by cells would put them from any
order. Its text is the same as that of any table with the same start symbol and cells, and
is loaded as the table itself; and every text that lists the rules, repeated cells and all,
is loaded as the table too. -/
theorem ofRules_canonical (startSymbol : String) (rules : List TableRule) :
    let t := ofRules startSymbol rules
    t.startSymbol = startSymbol ∧
      (∀ nonterminal lookahead,
        t.entry nonterminal lookahead = TableRule.lastFor rules ⟨nonterminal, lookahead⟩) ∧
      (∀ r, r ∈ t.rules ↔ TableRule.lastFor rules r.cell = some r.rhs) ∧
      (t.rules.Pairwise fun r r' => r.cell.Before r'.cell) ∧
      (∀ listing : List TableRule, listing.Nodup →
        (∀ r, r ∈ listing ↔ TableRule.lastFor rules r.cell = some r.rhs) →
          listing.mergeSort TableRule.notAfter = t.rules) ∧
      (∀ startSymbol' rules', let t' := ofRules startSymbol' rules'
        t'.startSymbol = t.startSymbol →
          (∀ nonterminal lookahead,
            t'.entry nonterminal lookahead = t.entry nonterminal lookahead) →
          t'.toJson.pretty = t.toJson.pretty) ∧
      ofJson t.toJson.pretty.toList = .ok t ∧
      ∀ text, Records text startSymbol rules → ofJson text = .ok t := by
  have hordered := ordered_ofRules startSymbol rules
  have hentry (r : TableRule) : TableRule.lastFor rules r.cell =
      (ofRules startSymbol rules).entry r.nonterminal r.lookahead :=
    (entry_ofRules startSymbol rules r.nonterminal r.lookahead).symm
  refine ⟨startSymbol_ofRules _ _, entry_ofRules _ _, ?_, hordered.rules_increasing, ?_, ?_,
    hordered.ofJson_toJson, ?_⟩
  · intro r
    rw [hordered.mem_rules_iff, hentry]
  · intro listing hnodup hlisting
    simp only [hentry] at hlisting
    exact hordered.mergeSort_eq_rules hnodup hlisting
  · intro startSymbol' rules' t' hstart hentry
    have heq : t' = _ := (ordered_ofRules startSymbol' rules').ext hordered hstart hentry
    rw [heq]
  · intro text htext
    exact ofJson_of_records htext

end ParseTable

end Lookahead
