import FirmwareSymbols.Report
import Mathlib.Data.List.Sort

/-!
# How often each class occurs

The classes of a report are counted in one pass over its symbols. A class
that has been seen is looked for among the counts and counted there; any
other class is put behind them with a count of one. So after every symbol
the counts tell exactly which classes have occurred so far and how often,
and their order is the order in which the classes were first seen.

## Main definitions

* `Tallies`: what the counts of a list have to be.

## Main results

* `Tallies.concat`: counting one more of a kind.
* `Tallies.foldl`: counting all kinds of a list.
* `Tallies.unique`: a list has only one list of counts.
* `Report.classCounts_exact`: the counts of a report.
-/

namespace FirmwareSymbols

section Tallies

variable {α : Type} [DecidableEq α] {kinds : List α} {counts : List (α × Nat)} {kind : α}

/-- Some counts tell how often each kind occurs in a list: each kind of the list stands there once, in the
order in which the kinds first occur. -/
structure Tallies (kinds : List α) (counts : List (α × Nat)) : Prop where
  mem_iff : ∀ kind, kind ∈ counts.map Prod.fst ↔ kind ∈ kinds
  inOrder : (counts.map Prod.fst).Pairwise fun a b => kinds.idxOf a < kinds.idxOf b
  count_eq : ∀ entry ∈ counts, entry.2 = kinds.count entry.1

theorem tallies_nil : Tallies ([] : List α) [] :=
  ⟨fun _ => Iff.rfl, List.Pairwise.nil, fun _ hentry => absurd hentry List.not_mem_nil⟩

theorem Tallies.nodup (h : Tallies kinds counts) : (counts.map Prod.fst).Nodup :=
  h.inOrder.imp fun hlt heq => absurd hlt (by rw [heq]; exact Nat.lt_irrefl _)

/-- There is only one list of counts. -/
theorem Tallies.unique {others : List (α × Nat)} (h : Tallies kinds counts)
    (hothers : Tallies kinds others) : counts = others := by
  have hasymm : Std.Asymm fun a b => kinds.idxOf a < kinds.idxOf b := ⟨fun _ _ => Nat.lt_asymm⟩
  have hkeys : counts.map Prod.fst = others.map Prod.fst := by
    apply h.inOrder.eq_of_mem_iff hothers.inOrder
    intro kind
    rw [h.mem_iff, hothers.mem_iff]
  -- the counts follow from the kinds
  have hentries : ∀ list : List (α × Nat), Tallies kinds list →
      list = (list.map Prod.fst).map fun kind => (kind, kinds.count kind) := by
    intro list hlist
    rw [List.map_map]
    refine (List.map_id list).symm.trans (List.map_congr_left fun entry hentry => ?_)
    exact Prod.ext rfl (hlist.count_eq entry hentry)
  rw [hentries counts h, hentries others hothers, hkeys]

/-! ## Counting one more -/

/-- A kind that has not been seen comes last. -/
theorem tally_of_unseen (hunseen : kind ∉ counts.map Prod.fst) :
    tally kind counts = counts ++ [(kind, 1)] := by
  induction counts with
  | nil => rfl
  | cons entry rest ih =>
      rw [List.map_cons, List.mem_cons, not_or] at hunseen
      rw [tally, if_neg (Ne.symm hunseen.1), ih hunseen.2, List.cons_append]

/-- A kind that has been seen is counted where it stands. -/
theorem tally_of_seen {before after : List (α × Nat)} {n : Nat}
    (hunseen : kind ∉ before.map Prod.fst) :
    tally kind (before ++ (kind, n) :: after) = before ++ (kind, n + 1) :: after := by
  induction before with
  | nil => exact if_pos rfl
  | cons entry rest ih =>
      rw [List.map_cons, List.mem_cons, not_or] at hunseen
      rw [List.cons_append, tally, if_neg (Ne.symm hunseen.1), ih hunseen.2, List.cons_append]

theorem count_concat_of_ne {other : α} (hne : other ≠ kind) :
    (kinds ++ [kind]).count other = kinds.count other := by
  have hnone : [kind].count other = 0 := by
    apply List.count_eq_zero_of_not_mem
    rwa [List.mem_singleton]
  rw [List.count_append, hnone, Nat.add_zero]

/-- One more kind at the end does not change where the others first occur. -/
theorem Tallies.inOrder_concat (h : Tallies kinds counts) (kind : α) :
    (counts.map Prod.fst).Pairwise fun a b =>
      (kinds ++ [kind]).idxOf a < (kinds ++ [kind]).idxOf b := by
  refine h.inOrder.imp_of_mem fun {a b} ha hb hlt => ?_
  rw [List.idxOf_append_of_mem ((h.mem_iff a).1 ha), List.idxOf_append_of_mem ((h.mem_iff b).1 hb)]
  exact hlt

/-- Behind the counts of a list a kind that does not occur there is counted once. -/
theorem Tallies.concat_unseen (h : Tallies kinds counts) (hunseen : kind ∉ kinds) :
    Tallies (kinds ++ [kind]) (counts ++ [(kind, 1)]) := by
  have hkeys : (counts ++ [(kind, 1)]).map Prod.fst = counts.map Prod.fst ++ [kind] :=
    List.map_append
  constructor
  · intro other
    rw [hkeys, List.mem_append, List.mem_append, h.mem_iff]
  · rw [hkeys, List.pairwise_append]
    refine ⟨h.inOrder_concat kind, List.pairwise_singleton _ _, fun a ha b hb => ?_⟩
    have hseen : a ∈ kinds := (h.mem_iff a).1 ha
    rw [List.mem_singleton.1 hb, List.idxOf_append_of_mem hseen, List.idxOf_append_of_notMem hunseen]
    exact Nat.lt_add_right _ (List.idxOf_lt_length_of_mem hseen)
  · intro entry hentry
    rcases List.mem_append.1 hentry with hold | hnew
    · have hseen : entry.1 ∈ kinds := (h.mem_iff _).1 (List.mem_map_of_mem hold)
      have hne : entry.1 ≠ kind := fun heq => hunseen (heq ▸ hseen)
      rw [count_concat_of_ne hne]
      exact h.count_eq entry hold
    · rw [List.mem_singleton.1 hnew]
      show 1 = (kinds ++ [kind]).count kind
      rw [List.count_append, List.count_eq_zero_of_not_mem hunseen, List.count_singleton_self]

/-- Among the counts of a list a kind that occurs there is counted once more. -/
theorem Tallies.concat_seen {before after : List (α × Nat)} {n : Nat}
    (h : Tallies kinds (before ++ (kind, n) :: after)) :
    Tallies (kinds ++ [kind]) (before ++ (kind, n + 1) :: after) := by
  have hkeys : (before ++ (kind, n + 1) :: after).map Prod.fst =
      (before ++ (kind, n) :: after).map Prod.fst := by
    simp only [List.map_append, List.map_cons]
  have hseen : kind ∈ kinds := (h.mem_iff kind).1 (by simp)
  constructor
  · intro other
    rw [hkeys, h.mem_iff, List.mem_append, List.mem_singleton]
    exact ⟨.inl, fun hother => hother.elim id fun heq => heq ▸ hseen⟩
  · rw [hkeys]
    exact h.inOrder_concat kind
  · intro entry hentry
    rcases List.mem_cons.1 (List.perm_middle.mem_iff.1 hentry) with rfl | hother
    · show n + 1 = (kinds ++ [kind]).count kind
      have hcount : n = kinds.count kind := h.count_eq (kind, n) (by simp)
      rw [List.count_append, List.count_singleton_self, ← hcount]
    · -- the kind stands nowhere else among the counts
      have hkey : entry.1 ∈ before.map Prod.fst ++ after.map Prod.fst := by
        rw [← List.map_append]
        exact List.mem_map_of_mem hother
      have hnodup := h.nodup
      rw [List.map_append, List.map_cons, List.nodup_middle, List.nodup_cons] at hnodup
      have hne : entry.1 ≠ kind := fun heq => hnodup.1 (heq ▸ hkey)
      rw [count_concat_of_ne hne]
      exact h.count_eq entry (List.perm_middle.mem_iff.2 (List.mem_cons_of_mem _ hother))

/-- Counting one more of a kind gives the counts of the list with that kind at its end. -/
theorem Tallies.concat (h : Tallies kinds counts) (kind : α) :
    Tallies (kinds ++ [kind]) (tally kind counts) := by
  by_cases hseen : kind ∈ kinds
  · obtain ⟨⟨_, n⟩, hentry, rfl⟩ := List.mem_map.1 ((h.mem_iff kind).2 hseen)
    obtain ⟨before, after, rfl⟩ := List.append_of_mem hentry
    have hnodup := h.nodup
    rw [List.map_append, List.map_cons, List.nodup_middle, List.nodup_cons, List.mem_append,
      not_or] at hnodup
    rw [tally_of_seen hnodup.1.1]
    exact h.concat_seen
  · rw [tally_of_unseen (mt (h.mem_iff kind).1 hseen)]
    exact h.concat_unseen hseen

/-! ## Counting all -/

/-- A pass over some more kinds goes from the counts of those before to the counts of all. -/
theorem Tallies.foldl (h : Tallies kinds counts) (more : List α) :
    Tallies (kinds ++ more) (more.foldl (fun counts kind => tally kind counts) counts) := by
  induction more generalizing kinds counts with
  | nil => rwa [List.append_nil]
  | cons kind more ih =>
      have hrest := ih (h.concat kind)
      rwa [List.append_assoc] at hrest

/-- A pass over some kinds adds their number to the total. -/
theorem sum_foldl_tally (more : List α) (counts : List (α × Nat)) :
    (more.foldl (fun counts kind => tally kind counts) counts).foldr
        (fun entry total => entry.2 + total) 0 =
      counts.foldr (fun entry total => entry.2 + total) 0 + more.length := by
  induction more generalizing counts with
  | nil => rfl
  | cons kind more ih =>
      rw [List.foldl_cons, ih, sum_tally, List.length_cons]
      omega

end Tallies

namespace Report

theorem classCounts_eq (report : Report) :
    report.classCounts = (report.symbols.map Symbol.symbolClass).foldl
      (fun counts kind => tally kind counts) [] := by
  rw [List.foldl_map]
  rfl

/-- The counts of a report are the one list that names each class that occurs among its symbols once, in
the order in which the classes first occur, with the number of its symbols. No count is zero, and together
they make up the number of all symbols. -/
theorem classCounts_exact (report : Report) :
    (∀ counts, Tallies (report.symbols.map Symbol.symbolClass) counts ↔
      counts = report.classCounts) ∧
    (report.classCounts.map Prod.fst).Nodup ∧
    (∀ entry ∈ report.classCounts,
      0 < entry.2 ∧ entry.2 = report.symbols.countP fun s => s.symbolClass == entry.1) ∧
    report.classCounts.foldr (fun entry total => entry.2 + total) 0 = report.symbols.length := by
  have htallies : Tallies (report.symbols.map Symbol.symbolClass) report.classCounts := by
    rw [classCounts_eq]
    exact tallies_nil.foldl _
  refine ⟨fun counts => ⟨fun h => h.unique htallies, ?_⟩, htallies.nodup, ?_, ?_⟩
  · rintro rfl
    exact htallies
  · intro entry hentry
    have hcount := htallies.count_eq entry hentry
    have hseen := (htallies.mem_iff entry.1).1 (List.mem_map_of_mem hentry)
    refine ⟨hcount ▸ List.count_pos_iff.2 hseen, ?_⟩
    rw [hcount, List.count_eq_countP, List.countP_map]
    rfl
  · rw [classCounts_eq, sum_foldl_tally, List.length_map]
    exact Nat.zero_add _

/-- A report of two functions with a variable between them. -/
def mixedClasses : Report where
  release := .v5
  symbolTable := ⟨0, 48⟩
  byteOrder := .big
  symbols :=
    [{ offset := 0, nameAddress := 0x1000, destAddress := 0x2000, nameLength := some 4,
       flags := 0x500, typeCode := 5 },
     { offset := 16, nameAddress := 0x1004, destAddress := 0x3000, nameLength := some 4,
       flags := 0x700, typeCode := 7 },
     { offset := 32, nameAddress := 0x1008, destAddress := 0x2100, nameLength := none,
       flags := 0x400, typeCode := 4 }]
  stringTable := none
  names := []
  loadAddress := none
  loadSource := none

theorem classCounts_exact_mixedClasses :
    mixedClasses.classCounts = [(.text, 2), (.data, 1)] ∧
    Tallies [.text, .data, .text] mixedClasses.classCounts ∧
    (SymbolClass.text, 2) ∈ mixedClasses.classCounts ∧
    2 = mixedClasses.symbols.countP fun s => s.symbolClass == .text := by
  have hcounts : mixedClasses.classCounts = [(.text, 2), (.data, 1)] := by decide
  have htext : (SymbolClass.text, 2) ∈ mixedClasses.classCounts := by decide
  obtain ⟨htallies, _, hcount, _⟩ := classCounts_exact mixedClasses
  exact ⟨hcounts, (htallies _).2 rfl, htext, (hcount _ htext).2⟩

end Report

end FirmwareSymbols
