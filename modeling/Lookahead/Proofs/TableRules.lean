import Lookahead.Grammar.Table
import Lookahead.Proofs.SortedEntries

/-!
The rules of a table. Whatever rules a table was filled with, in whatever order, a
cell holds the right-hand side of the last rule for it. The rules of the table list
every filled cell once and in increasing order, the end of the input before every
class, so they depend on nothing but what the cells hold: to sort the filled cells from
any order gives the rules, and to fill an empty table with them gives the table back.
-/
namespace Lookahead

namespace Cell

/-- The end of the input comes before every class. -/
inductive LookaheadBefore : Option String → Option String → Prop where
  | ending (lexClass : String) : LookaheadBefore none (some lexClass)
  | classes {lexClass lexClass' : String} (h : lexClass < lexClass') :
      LookaheadBefore (some lexClass) (some lexClass')

/-- By nonterminal, and for one nonterminal by lookahead. -/
inductive Before : Cell → Cell → Prop where
  | nonterminal {a b : Cell} (h : a.nonterminal < b.nonterminal) : Before a b
  | lookahead {nonterminal : String} {lookahead lookahead' : Option String}
      (h : LookaheadBefore lookahead lookahead') :
      Before ⟨nonterminal, lookahead⟩ ⟨nonterminal, lookahead'⟩

theorem compareLookahead_eq (a b : Option String) : compareLookahead a b = compare a b := by
  cases a <;> cases b <;> rfl

theorem compare_eq (a b : Cell) :
    compare a b = compareLex (compareOn Cell.nonterminal) (compareOn Cell.lookahead) a b := by
  simp only [compareLex, compareOn, ← compareLookahead_eq]
  rfl

instance : Std.TransOrd Cell := by
  have heq : (compare : Cell → Cell → Ordering) =
      compareLex (compareOn Cell.nonterminal) (compareOn Cell.lookahead) :=
    funext fun a => funext fun b => compare_eq a b
  rw [Std.TransOrd, heq]
  infer_instance

theorem compareLookahead_eq_lt_iff {a b : Option String} :
    compareLookahead a b = .lt ↔ LookaheadBefore a b := by
  constructor
  · intro h
    cases a with
    | none =>
        cases b with
        | none => cases h
        | some lexClass => exact .ending lexClass
    | some lexClass =>
        cases b with
        | none => cases h
        | some lexClass' => exact .classes (compareOfLessAndEq_eq_lt.mp h)
  · intro h
    cases h with
    | ending lexClass => rfl
    | classes h => exact compareOfLessAndEq_eq_lt.mpr h

theorem compare_eq_lt_iff {a b : Cell} : compare a b = .lt ↔ a.Before b := by
  have hlt : compare a b = .lt ↔ compare a.nonterminal b.nonterminal = .lt ∨
      compare a.nonterminal b.nonterminal = .eq ∧ compareLookahead a.lookahead b.lookahead = .lt :=
    Ordering.then_eq_lt
  rw [hlt, compareLookahead_eq_lt_iff, Std.compare_eq_iff_eq]
  constructor
  · rintro (hnonterminal | ⟨hnonterminal, hlookahead⟩)
    · exact .nonterminal (compareOfLessAndEq_eq_lt.mp hnonterminal)
    · obtain ⟨nonterminal, lookahead⟩ := a
      obtain rfl : nonterminal = b.nonterminal := hnonterminal
      exact .lookahead hlookahead
  · intro h
    cases h with
    | nonterminal hnonterminal => exact Or.inl (compareOfLessAndEq_eq_lt.mpr hnonterminal)
    | lookahead hlookahead => exact Or.inr ⟨rfl, hlookahead⟩

instance : Std.LawfulEqOrd Cell where
  eq_of_compare := by
    intro a b h
    have hparts := Ordering.then_eq_eq.mp h
    rw [compareLookahead_eq, Std.compare_eq_iff_eq, Std.compare_eq_iff_eq] at hparts
    obtain ⟨nonterminal, lookahead⟩ := a
    obtain ⟨rfl, rfl⟩ := hparts
    rfl

end Cell

namespace TableRule

def cell (r : TableRule) : Cell := ⟨r.nonterminal, r.lookahead⟩

/-- The order of a sort by cells. -/
def notAfter (r r' : TableRule) : Bool := (compare r.cell r'.cell).isLE

theorem notAfter_trans (r r' r'' : TableRule) (h : r.notAfter r' = true)
    (h' : r'.notAfter r'' = true) : r.notAfter r'' = true :=
  Std.TransCmp.isLE_trans h h'

theorem notAfter_total (r r' : TableRule) : (r.notAfter r' || r'.notAfter r) = true := by
  have hswap : compare r'.cell r.cell = (compare r.cell r'.cell).swap := Std.OrientedCmp.eq_swap
  rw [notAfter, notAfter, hswap]
  cases compare r.cell r'.cell <;> rfl

theorem notAfter_antisymm {r r' : TableRule} (h : r.notAfter r' = true)
    (h' : r'.notAfter r = true) : r.cell = r'.cell :=
  Std.LawfulEqCmp.eq_of_compare (Std.OrientedCmp.isLE_antisymm h h')

/-- The right-hand side of the last rule for a cell. -/
def lastFor (rules : List TableRule) (cell : Cell) : Option (List String) :=
  (rules.reverse.find? fun r => r.cell = cell).map (·.rhs)

theorem lastFor_cons (r : TableRule) (rules : List TableRule) (cell : Cell) :
    lastFor (r :: rules) cell =
      (lastFor rules cell).or (if r.cell = cell then some r.rhs else none) := by
  simp only [lastFor, List.reverse_cons, List.find?_append, List.find?_singleton]
  cases rules.reverse.find? fun r => r.cell = cell with
  | some last => rfl
  | none => by_cases h : r.cell = cell <;> simp [h]

end TableRule

namespace ParseTable

/-- The cells are in order; it is so for every table that was filled rule by rule. -/
def Ordered (t : ParseTable) : Prop := t.cells.Ordered

theorem entry_insert (t : ParseTable) (r : TableRule) (cell : Cell) :
    (t.insert r).entry cell.nonterminal cell.lookahead =
      if r.cell = cell then some r.rhs else t.entry cell.nonterminal cell.lookahead := by
  by_cases h : r.cell = cell
  · subst h
    rw [if_pos rfl]
    exact t.cells.get?_insert_self r.cell r.rhs
  · rw [if_neg h]
    exact t.cells.get?_insert_of_ne (Ne.symm h) r.rhs

theorem startSymbol_foldl_insert (t : ParseTable) (rules : List TableRule) :
    (rules.foldl insert t).startSymbol = t.startSymbol := by
  induction rules generalizing t with
  | nil => rfl
  | cons r rules ih => exact ih (t.insert r)

theorem entry_foldl_insert (t : ParseTable) (rules : List TableRule) (cell : Cell) :
    (rules.foldl insert t).entry cell.nonterminal cell.lookahead =
      (TableRule.lastFor rules cell).or (t.entry cell.nonterminal cell.lookahead) := by
  induction rules generalizing t with
  | nil => rfl
  | cons r rules ih =>
      rw [List.foldl_cons, ih, entry_insert, TableRule.lastFor_cons, Option.or_assoc]
      by_cases h : r.cell = cell <;> simp [h]

theorem Ordered.foldl_insert {t : ParseTable} (h : t.Ordered) (rules : List TableRule) :
    (rules.foldl ParseTable.insert t).Ordered := by
  induction rules generalizing t with
  | nil => exact h
  | cons r rules ih => exact ih (SortedMap.Ordered.insert h r.cell r.rhs)

theorem ordered_ofRules (startSymbol : String) (rules : List TableRule) :
    (ofRules startSymbol rules).Ordered :=
  Ordered.foldl_insert (t := { startSymbol := startSymbol }) SortedMap.ordered_empty rules

theorem startSymbol_ofRules (startSymbol : String) (rules : List TableRule) :
    (ofRules startSymbol rules).startSymbol = startSymbol :=
  startSymbol_foldl_insert _ rules

theorem entry_ofRules (startSymbol : String) (rules : List TableRule) (nonterminal : String)
    (lookahead : Option String) :
    (ofRules startSymbol rules).entry nonterminal lookahead =
      TableRule.lastFor rules ⟨nonterminal, lookahead⟩ := by
  have hempty : ({ startSymbol := startSymbol } : ParseTable).entry nonterminal lookahead = none :=
    SortedMap.get?_empty _
  rw [ofRules, entry_foldl_insert _ rules ⟨nonterminal, lookahead⟩, hempty, Option.or_none]

theorem Ordered.mem_rules_iff {t : ParseTable} (h : t.Ordered) (r : TableRule) :
    r ∈ t.rules ↔ t.entry r.nonterminal r.lookahead = some r.rhs := by
  have hentry : r ∈ t.rules ↔ (r.cell, r.rhs) ∈ t.cells.entries := by
    rw [rules, List.mem_map]
    constructor
    · rintro ⟨entry, hentry, rfl⟩
      exact hentry
    · intro hentry
      exact ⟨(r.cell, r.rhs), hentry, rfl⟩
  rw [hentry, SortedMap.Ordered.mem_entries_iff h]
  rfl

theorem Ordered.rules_increasing {t : ParseTable} (h : t.Ordered) :
    t.rules.Pairwise fun r r' => r.cell.Before r'.cell := by
  rw [rules, List.pairwise_map]
  exact h.imp Cell.compare_eq_lt_iff.mp

theorem Ordered.nodup_rules {t : ParseTable} (h : t.Ordered) : t.rules.Nodup := by
  refine h.rules_increasing.imp ?_
  rintro r r' hbefore rfl
  have hlt := Cell.compare_eq_lt_iff.mpr hbefore
  rw [Std.ReflOrd.compare_self] at hlt
  cases hlt

theorem Ordered.rules_sorted {t : ParseTable} (h : t.Ordered) :
    t.rules.Pairwise fun r r' => r.notAfter r' = true := by
  refine h.rules_increasing.imp ?_
  intro r r' hbefore
  rw [TableRule.notAfter, Cell.compare_eq_lt_iff.mpr hbefore]
  rfl

/-- The filled cells, each listed once and in any order, are sorted into the rules. -/
theorem Ordered.mergeSort_eq_rules {t : ParseTable} (h : t.Ordered) {listing : List TableRule}
    (hnodup : listing.Nodup)
    (hlisting : ∀ r, r ∈ listing ↔ t.entry r.nonterminal r.lookahead = some r.rhs) :
    listing.mergeSort TableRule.notAfter = t.rules := by
  have hperm : (listing.mergeSort TableRule.notAfter).Perm t.rules := by
    refine (List.mergeSort_perm listing _).trans ?_
    rw [List.perm_ext_iff_of_nodup hnodup h.nodup_rules]
    intro r
    rw [hlisting, h.mem_rules_iff]
  have hsorted : (listing.mergeSort TableRule.notAfter).Pairwise fun r r' =>
      r.notAfter r' = true :=
    List.pairwise_mergeSort TableRule.notAfter_trans TableRule.notAfter_total listing
  refine hperm.eq_of_pairwise ?_ hsorted h.rules_sorted
  -- a cell is filled at most once, so two rules of the table are not told apart by order only
  intro r r' hr hr' hle hge
  have hcell := TableRule.notAfter_antisymm hle hge
  have hfilled := (h.mem_rules_iff r).mp (hperm.mem_iff.mp hr)
  have hfilled' := (h.mem_rules_iff r').mp hr'
  obtain ⟨nonterminal, lookahead, rhs⟩ := r
  cases hcell
  rw [hfilled] at hfilled'
  cases hfilled'
  rfl

theorem Ordered.ext {t t' : ParseTable} (h : t.Ordered) (h' : t'.Ordered)
    (hstart : t.startSymbol = t'.startSymbol)
    (hentry : ∀ nonterminal lookahead, t.entry nonterminal lookahead =
      t'.entry nonterminal lookahead) : t = t' := by
  have hcells : t.cells = t'.cells :=
    SortedMap.Ordered.ext h h' fun cell => hentry cell.nonterminal cell.lookahead
  obtain ⟨startSymbol, cells⟩ := t
  obtain rfl : startSymbol = t'.startSymbol := hstart
  obtain rfl : cells = t'.cells := hcells
  rfl

theorem Ordered.lastFor_rules {t : ParseTable} (h : t.Ordered) (cell : Cell) :
    TableRule.lastFor t.rules cell = t.entry cell.nonterminal cell.lookahead := by
  cases hlast : t.rules.reverse.find? fun r => r.cell = cell with
  | some r =>
      obtain rfl : r.cell = cell := by simpa using List.find?_some hlast
      have hmem : r ∈ t.rules := List.mem_reverse.mp (List.mem_of_find?_eq_some hlast)
      rw [TableRule.lastFor, hlast]
      exact ((h.mem_rules_iff r).mp hmem).symm
  | none =>
      rw [TableRule.lastFor, hlast]
      cases hentry : t.entry cell.nonterminal cell.lookahead with
      | none => rfl
      | some rhs =>
          have hmem := (h.mem_rules_iff ⟨cell.nonterminal, cell.lookahead, rhs⟩).mpr hentry
          have hnone := List.find?_eq_none.mp hlast _ (List.mem_reverse.mpr hmem)
          exact absurd (decide_eq_true rfl) hnone

/-- To fill an empty table with the rules of a table gives that table back. -/
theorem Ordered.ofRules_rules {t : ParseTable} (h : t.Ordered) :
    ofRules t.startSymbol t.rules = t := by
  refine (ordered_ofRules _ _).ext h (startSymbol_ofRules _ _) ?_
  intro nonterminal lookahead
  rw [entry_ofRules, h.lastFor_rules]

end ParseTable

end Lookahead
