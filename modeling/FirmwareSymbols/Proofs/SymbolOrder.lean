import FirmwareSymbols.Symbol.Decode
import Mathlib.Data.List.Pairwise

/-!
# The orders of the symbols

Symbols are sorted twice: by the address of their names when a table is
decoded, and by the place of their records when a report is handed over.
Both sorts are stable, so an order that the list had before decides
between symbols of one address or of one place.

## Main results

* `filter_sortBy`: elements of one key stay as they were.
* `pairwise_sortBy_of_pairwise`: the old order breaks the ties of the new one.
* `Symbol.pairwise_sortByName`, `Symbol.pairwise_sortByOffset`: the two
  orders of the symbols.
-/

namespace FirmwareSymbols

/-! ## Sorting by a key -/

section SortBy

variable {α β : Type} [LE β] [DecidableLE β] [Std.IsLinearOrder β] (key : α → β)

theorem decide_key_trans (a b c : α) (hab : decide (key a ≤ key b) = true)
    (hbc : decide (key b ≤ key c) = true) : decide (key a ≤ key c) = true :=
  decide_eq_true (Std.le_trans (of_decide_eq_true hab) (of_decide_eq_true hbc))

theorem decide_key_total (a b : α) :
    (decide (key a ≤ key b) || decide (key b ≤ key a)) = true := by
  rw [Bool.or_eq_true, decide_eq_true_eq, decide_eq_true_eq]
  exact Std.le_total

theorem pairwise_sortBy (list : List α) :
    (list.mergeSort fun a b => decide (key a ≤ key b)).Pairwise fun a b => key a ≤ key b :=
  (List.pairwise_mergeSort (decide_key_trans key) (decide_key_total key) list).imp of_decide_eq_true

/-- A sort is stable: elements of one key stay in the order that they had. -/
theorem filter_sortBy {p : α → Bool} (list : List α)
    (hkey : ∀ a b, p a = true → p b = true → key a ≤ key b) :
    (list.mergeSort fun a b => decide (key a ≤ key b)).filter p = list.filter p := by
  have hsorted : (list.filter p).Pairwise fun a b => decide (key a ≤ key b) = true := by
    apply List.pairwise_of_forall_mem_list
    intro a ha b hb
    exact decide_eq_true (hkey a b (List.mem_filter.1 ha).2 (List.mem_filter.1 hb).2)
  -- they are sorted already, so the sort leaves them as a sublist
  have hsublist :=
    List.sublist_mergeSort (decide_key_trans key) (decide_key_total key) hsorted List.filter_sublist
  have hkept := hsublist.filter p
  rw [List.filter_filter] at hkept
  simp only [Bool.and_self] at hkept
  exact (hkept.eq_of_length ((List.mergeSort_perm list _).filter p).length_eq.symm).symm

/-- Two elements of one key that a sort leaves in some order were in that order before. -/
theorem sublist_of_sublist_sortBy {a b : α} {list : List α} (hle : key a ≤ key b)
    (hge : key b ≤ key a)
    (h : List.Sublist [a, b] (list.mergeSort fun a b => decide (key a ≤ key b))) :
    List.Sublist [a, b] list := by
  have hkept := h.filter fun c => decide (key a ≤ key c ∧ key c ≤ key a)
  have hsame : ∀ c d, decide (key a ≤ key c ∧ key c ≤ key a) = true →
      decide (key a ≤ key d ∧ key d ≤ key a) = true → key c ≤ key d := by
    intro c d hc hd
    exact Std.le_trans (of_decide_eq_true hc).2 (of_decide_eq_true hd).1
  have hboth : ∀ c ∈ [a, b], decide (key a ≤ key c ∧ key c ≤ key a) = true := by
    simp [hle, hge, Std.le_refl]
  rw [filter_sortBy key list hsame, List.filter_eq_self.2 hboth] at hkept
  exact hkept.trans List.filter_sublist

/-- Sorting a list that had an order keeps this order between elements of one key. -/
theorem pairwise_sortBy_of_pairwise [LT β] [Std.LawfulOrderLT β] {R : α → α → Prop}
    {list : List α} (h : list.Pairwise R) :
    (list.mergeSort fun a b => decide (key a ≤ key b)).Pairwise fun a b =>
      key a < key b ∨ key a = key b ∧ R a b := by
  refine List.pairwise_iff_forall_sublist.2 fun {a b} hpair => ?_
  have hle : key a ≤ key b :=
    List.pairwise_iff_forall_sublist.1 (pairwise_sortBy key list) hpair
  by_cases hge : key b ≤ key a
  · have hbefore := sublist_of_sublist_sortBy key hle hge hpair
    exact .inr ⟨Std.le_antisymm hle hge, List.pairwise_iff_forall_sublist.1 h hbefore⟩
  · exact .inl (Std.lt_iff_le_and_not_ge.2 ⟨hle, hge⟩)

end SortBy

/-! ## By name and by place -/

namespace Symbol

/-- Of two symbols the one with the lower name comes first, and of two with one name the one that the table
has first. -/
def Precedes (s t : Symbol) : Prop :=
  s.nameAddress < t.nameAddress ∨ s.nameAddress = t.nameAddress ∧ s.offset < t.offset

theorem Precedes.not_symm {s t : Symbol} (h : s.Precedes t) : ¬ t.Precedes s := by
  rw [Precedes, UInt32.lt_iff_toNat_lt, ← UInt32.toNat_inj] at h ⊢
  omega

theorem pairwise_sortByName (symbols : List Symbol) :
    (sortByName symbols).Pairwise fun s next => s.nameAddress ≤ next.nameAddress :=
  pairwise_sortBy nameAddress symbols

theorem pairwise_sortByOffset (symbols : List Symbol) :
    (sortByOffset symbols).Pairwise fun s next => s.offset ≤ next.offset :=
  pairwise_sortBy offset symbols

theorem pairwise_precedes_sortByName {symbols : List Symbol}
    (h : symbols.Pairwise fun s t => s.offset < t.offset) :
    (sortByName symbols).Pairwise Precedes :=
  pairwise_sortBy_of_pairwise nameAddress h

end Symbol

end FirmwareSymbols
