import Lookahead.SortedMap

/-!
Sorted maps by what they hold. A key holds the value that was inserted for it last,
and the keys of the entries increase strictly. So the entries list every key that
holds a value exactly once, and two maps that hold the same have the same entries.
-/
namespace Lookahead

namespace SortedMap

variable {κ ν : Type} [Ord κ]

/-- The keys increase strictly from entry to entry. -/
def Ordered (m : SortedMap κ ν) : Prop :=
  m.entries.Pairwise fun a b => compare a.1 b.1 = .lt

theorem ordered_empty : (⟨[]⟩ : SortedMap κ ν).Ordered := .nil

theorem get?_empty (k : κ) : (⟨[]⟩ : SortedMap κ ν).get? k = none := rfl

theorem get?_cons (entry : κ × ν) (rest : List (κ × ν)) (k : κ) :
    (⟨entry :: rest⟩ : SortedMap κ ν).get? k =
      if compare k entry.1 = .eq then some entry.2 else (⟨rest⟩ : SortedMap κ ν).get? k := by
  by_cases h : compare k entry.1 = .eq <;> simp [get?, h]

theorem mem_insertEntry {entry : κ × ν} {k : κ} {v : ν} {entries : List (κ × ν)}
    (h : entry ∈ insertEntry k v entries) : entry = (k, v) ∨ entry ∈ entries := by
  induction entries with
  | nil => exact Or.inl (List.mem_singleton.mp h)
  | cons other rest ih =>
      simp only [insertEntry] at h
      split at h
      · exact List.mem_cons.mp h
      · exact (List.mem_cons.mp h).imp_right (List.mem_cons_of_mem other)
      · cases h with
        | head => exact Or.inr List.mem_cons_self
        | tail _ h => exact (ih h).imp_right (List.mem_cons_of_mem other)

variable [Std.LawfulEqOrd κ]

theorem get?_insert_self (m : SortedMap κ ν) (k : κ) (v : ν) : (m.insert k v).get? k = some v := by
  obtain ⟨entries⟩ := m
  induction entries with
  | nil => simp [insert, insertEntry, get?_cons]
  | cons entry rest ih =>
      simp only [insert, insertEntry] at ih ⊢
      cases hcompare : compare k entry.1 with
      | lt | eq => simp [get?_cons]
      | gt => simpa [get?_cons, hcompare] using ih

theorem get?_insert_of_ne (m : SortedMap κ ν) {k k' : κ} (h : k' ≠ k) (v : ν) :
    (m.insert k v).get? k' = m.get? k' := by
  obtain ⟨entries⟩ := m
  induction entries with
  | nil => simp [insert, insertEntry, get?_cons, h]
  | cons entry rest ih =>
      simp only [insert, insertEntry] at ih ⊢
      cases hcompare : compare k entry.1 with
      | lt => simp [get?_cons, h]
      | eq =>
          obtain rfl := Std.compare_eq_iff_eq.mp hcompare
          simp [get?_cons, h]
      | gt => simp only [get?_cons, ih]

theorem Ordered.nodup {m : SortedMap κ ν} (h : m.Ordered) : m.entries.Nodup := by
  refine List.Pairwise.imp ?_ h
  rintro a _ hlt rfl
  rw [Std.compare_self] at hlt
  cases hlt

/-- The entries are the pairs of a key and the value that it holds. -/
theorem Ordered.mem_entries_iff {m : SortedMap κ ν} (h : m.Ordered) {k : κ} {v : ν} :
    (k, v) ∈ m.entries ↔ m.get? k = some v := by
  obtain ⟨entries⟩ := m
  induction entries with
  | nil => simp [get?]
  | cons entry rest ih =>
      obtain ⟨hbefore, hrest⟩ := List.pairwise_cons.mp h
      have hlater := ih hrest
      rw [get?_cons]
      by_cases hkey : k = entry.1
      · subst hkey
        have hnot : (entry.1, v) ∉ rest := by
          intro hmem
          have hlt : compare entry.1 entry.1 = .lt := hbefore (entry.1, v) hmem
          rw [Std.compare_self] at hlt
          cases hlt
        obtain ⟨k, w⟩ := entry
        simp [hnot, eq_comm]
      · have hne : (k, v) ≠ entry := by
          rintro rfl
          exact hkey rfl
        simpa [hkey, hne] using hlater

variable [Std.TransOrd κ]

theorem Ordered.insert {m : SortedMap κ ν} (h : m.Ordered) (k : κ) (v : ν) :
    (m.insert k v).Ordered := by
  obtain ⟨entries⟩ := m
  induction entries with
  | nil => exact List.pairwise_singleton _ _
  | cons entry rest ih =>
      obtain ⟨hbefore, hrest⟩ := List.pairwise_cons.mp h
      simp only [SortedMap.insert, Ordered, insertEntry] at ih ⊢
      cases hcompare : compare k entry.1 with
      | lt =>
          refine .cons ?_ h
          intro other hother
          cases hother with
          | head => exact hcompare
          | tail _ hother => exact Std.TransCmp.lt_trans hcompare (hbefore other hother)
      | eq =>
          obtain rfl := Std.compare_eq_iff_eq.mp hcompare
          exact .cons hbefore hrest
      | gt =>
          refine .cons ?_ (ih hrest)
          intro other hother
          obtain rfl | hother := mem_insertEntry hother
          · exact Std.OrientedCmp.gt_iff_lt.mp hcompare
          · exact hbefore other hother

/-- The entries are determined by what the keys hold. -/
theorem Ordered.ext {m m' : SortedMap κ ν} (h : m.Ordered) (h' : m'.Ordered)
    (hsame : ∀ k, m.get? k = m'.get? k) : m = m' := by
  have hperm : m.entries.Perm m'.entries := by
    rw [List.perm_ext_iff_of_nodup h.nodup h'.nodup]
    intro entry
    rw [h.mem_entries_iff, h'.mem_entries_iff, hsame]
  have hentries : m.entries = m'.entries := by
    refine List.Perm.eq_of_pairwise ?_ h h' hperm
    intro a b _ _ hab hba
    exact absurd hba (Std.OrientedCmp.not_lt_of_lt hab)
  obtain ⟨entries⟩ := m
  obtain ⟨entries'⟩ := m'
  exact congrArg SortedMap.mk hentries

theorem Ordered.get?_eq_none {entry : κ × ν} {rest : List (κ × ν)} {k : κ}
    (h : (⟨entry :: rest⟩ : SortedMap κ ν).Ordered) (hlt : compare k entry.1 = .lt) :
    (⟨entry :: rest⟩ : SortedMap κ ν).get? k = none := by
  rw [Option.eq_none_iff_forall_ne_some]
  intro v hv
  rw [← h.mem_entries_iff] at hv
  cases hv with
  | head =>
      rw [Std.compare_self] at hlt
      cases hlt
  | tail _ hmem =>
      have hgt : compare entry.1 k = .lt := (List.pairwise_cons.mp h).1 (k, v) hmem
      exact Std.OrientedCmp.not_lt_of_lt hlt hgt

def valueSum (m : SortedMap κ Nat) : Nat :=
  m.entries.foldr (fun entry sum => entry.2 + sum) 0

/-- What an insertion does to the sum of the values: the new value comes in place of
the one that the key held. -/
theorem Ordered.valueSum_insert {m : SortedMap κ Nat} (h : m.Ordered) (k : κ) (v : Nat) :
    (m.insert k v).valueSum + (m.get? k).getD 0 = m.valueSum + v := by
  obtain ⟨entries⟩ := m
  induction entries with
  | nil => simp [valueSum, SortedMap.insert, insertEntry, get?_empty]
  | cons entry rest ih =>
      have hrest := ih (List.pairwise_cons.mp h).2
      simp only [valueSum, SortedMap.insert, insertEntry] at hrest ⊢
      cases hcompare : compare k entry.1 with
      | lt =>
          rw [h.get?_eq_none hcompare]
          simp
          omega
      | eq =>
          rw [get?_cons, if_pos hcompare]
          simp
          omega
      | gt =>
          rw [get?_cons, if_neg (by simp [hcompare])]
          simp
          omega

end SortedMap

end Lookahead
