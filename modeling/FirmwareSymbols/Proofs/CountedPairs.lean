import FirmwareSymbols.Proofs.ExpiredBudget.Pairs
import FirmwareSymbols.Proofs.WellFormed
import Mathlib.Algebra.Order.BigOperators.Group.List
import Mathlib.Algebra.Order.Group.Nat

/-!
# How many pairs a correlation counts

Of the numbers that an analysis computes, that of the pairs which a
correlation has counted is the only one that is no size of anything: it
may come near the product of the lengths of the tables. The pairs are
counted one by one, and the count ends with the pair that decides the
search, be it that it implies a load address or that the clock is read
there and the time is up.

## Main definitions

* `Counter.searchList`: what a search through a list answers, and how many
  elements it has counted by then.
* `countedPairs`, `Config.countedPairs`: how many pairs are counted in a
  correlation and in an analysis.

## Main results

* `correlateFrom_eq_searchList`: a correlation is one counted search.
* `countedPairs_eq_length`: if no pair decides, all of them are counted.
* `Config.countedPairs_le`: how many pairs an image has room for.
-/

namespace FirmwareSymbols

/-! ## Counted searches through a list -/

namespace Counter

variable {α β γ : Type}

/-- Tests the elements of a list in turn and gives the first answer, and with it how many have been
counted by then. The counter is checked before each test; `counted` iterations have been counted
already. -/
def searchList (counter : Counter) (test : α → Option β) (counted : Nat) :
    List α → Except Fault (Option β) × Nat
  | [] => (.ok none, counted)
  | a :: rest =>
    match counter.check (counted + 1) with
    | .error fault => (.error fault, counted + 1)
    | .ok () =>
      match test a with
      | some answer => (.ok (some answer), counted + 1)
      | none => counter.searchList test (counted + 1) rest

variable {counter : Counter} {test : α → Option β}

theorem searchList_cons (counted : Nat) (a : α) (rest : List α) :
    counter.searchList test counted (a :: rest) =
      match counter.check (counted + 1) with
      | .error fault => (.error fault, counted + 1)
      | .ok () =>
        match test a with
        | some answer => (.ok (some answer), counted + 1)
        | none => counter.searchList test (counted + 1) rest := rfl

/-- A search that comes to the end of a list goes on with the next one. -/
theorem searchList_append (counted : Nat) (front back : List α) :
    counter.searchList test counted (front ++ back) =
      match counter.searchList test counted front with
      | (.ok none, reached) => counter.searchList test reached back
      | decided => decided := by
  induction front generalizing counted with
  | nil => rfl
  | cons a rest ih =>
      rw [List.cons_append, searchList_cons, searchList_cons]
      cases counter.check (counted + 1) with
      | error fault => rfl
      | ok _ =>
          cases test a with
          | some answer => rfl
          | none => exact ih (counted + 1)

theorem searchList_map (f : γ → α) (counted : Nat) (list : List γ) :
    counter.searchList test counted (list.map f) =
      counter.searchList (test ∘ f) counted list := by
  induction list generalizing counted with
  | nil => rfl
  | cons c rest ih =>
      rw [List.map_cons, searchList_cons, searchList_cons, ih]
      rfl

theorem le_searchList (counted : Nat) (list : List α) :
    counted ≤ (counter.searchList test counted list).2 := by
  induction list generalizing counted with
  | nil => exact Nat.le_refl _
  | cons a rest ih =>
      rw [searchList_cons]
      cases counter.check (counted + 1) with
      | error fault => exact Nat.le_succ _
      | ok _ =>
          cases test a with
          | some answer => exact Nat.le_succ _
          | none => exact Nat.le_of_succ_le (ih (counted + 1))

theorem lt_searchList (counted : Nat) (a : α) (rest : List α) :
    counted < (counter.searchList test counted (a :: rest)).2 := by
  rw [searchList_cons]
  cases counter.check (counted + 1) with
  | error fault => exact Nat.lt_succ_self _
  | ok _ =>
      cases test a with
      | some answer => exact Nat.lt_succ_self _
      | none => exact le_searchList (counted + 1) rest

/-- Only a search that has counted the whole list is undecided. -/
theorem searchList_of_undecided {counted : Nat} {list : List α}
    (h : (counter.searchList test counted list).1 = .ok none) :
    (counter.searchList test counted list).2 = counted + list.length := by
  induction list generalizing counted with
  | nil => rfl
  | cons a rest ih =>
      rw [searchList_cons] at h ⊢
      rw [List.length_cons]
      cases hcheck : counter.check (counted + 1) with
      | error fault =>
          rw [hcheck] at h
          cases h
      | ok _ =>
          rw [hcheck] at h
          cases htest : test a with
          | some answer =>
              rw [htest] at h
              cases h
          | none =>
              rw [htest] at h
              have hrest := ih h
              show (counter.searchList test (counted + 1) rest).2 = _
              omega

/-- The answer of a search through a list is that of the search through its places. -/
theorem firstSome_eq_searchList (counter : Counter) (test : α → Option β) (counted : Nat)
    (front list : List α) :
    counter.firstSome (fun k => ((front ++ list)[k]?).bind test) counted front.length list.length =
      (counter.searchList test counted list).1 := by
  induction list generalizing counted front with
  | nil => rfl
  | cons a rest ih =>
      have hhere : (front ++ a :: rest)[front.length]? = some a := by
        rw [List.getElem?_append_right (Nat.le_refl _), Nat.sub_self]
        rfl
      have hnext := ih (counted + 1) (front ++ [a])
      rw [List.append_assoc, List.length_append, List.length_singleton,
        List.singleton_append] at hnext
      rw [List.length_cons, firstSome, searchList_cons, hhere, Option.bind_some]
      cases counter.check (counted + 1) with
      | error fault => rfl
      | ok _ =>
          cases test a with
          | some answer => rfl
          | none => exact hnext

end Counter

/-! ## The pairs of two tables -/

/-- A correlation is one counted search through the pairs of stretches that begin with equal lengths. -/
theorem correlateFrom_eq_searchList (counter : Counter) (names : List Name) (count done : Nat)
    (symbols : List Symbol) :
    correlateFrom counter (lengthIndex names) count done symbols =
      (counter.searchList (fun pair => loadAddress? count pair.1 pair.2) done
        (stretchPairs symbols names)).1 := by
  induction symbols generalizing done with
  | nil => rfl
  | cons s rest ih =>
      have hsplit : stretchPairs (s :: rest) names =
          (counterparts names (s :: rest)).map (s :: rest, ·) ++ stretchPairs rest names := rfl
      have hsearch := counter.firstSome_eq_searchList (loadAddress? count (s :: rest)) done []
        (counterparts names (s :: rest))
      rw [List.nil_append, List.length_nil] at hsearch
      rw [Budget.correlateFrom_cons, getD_map_lengthIndex names s rest, hsplit,
        Counter.searchList_append, Counter.searchList_map]
      simp only [List.getElem?_toArray, List.size_toArray, hsearch]
      have hcounted := @Counter.searchList_of_undecided _ _ counter
        (loadAddress? count (s :: rest)) done (counterparts names (s :: rest))
      simp only [Function.comp_def] at hcounted ⊢
      generalize counter.searchList (loadAddress? count (s :: rest)) done
        (counterparts names (s :: rest)) = searched at hcounted ⊢
      obtain ⟨answer, reached⟩ := searched
      cases answer with
      | error fault => rfl
      | ok hit =>
          cases hit with
          | some load => rfl
          | none =>
              rw [← hcounted rfl]
              exact ih reached

/-- How many pairs a correlation has counted when it ends. If nothing has to agree, it counts none. -/
def countedPairs (budget : Budget) (symbols : List Symbol) (names : List Name) (count : Nat) : Nat :=
  if count = 0 then 0
  else
    ((budget.counter .correlation defaultInterval).searchList
      (fun pair => loadAddress? count (symbols.drop pair.1) (names.drop pair.2)) 0
      (equalPairs symbols names)).2

section CountedPairs

variable {symbols : List Symbol} {names : List Name} {count : Nat}

/-- The same count, told by the stretches that begin at the pairs. -/
theorem countedPairs_eq_searchList (budget : Budget) (hcount : count ≠ 0) :
    countedPairs budget symbols names count =
      ((budget.counter .correlation defaultInterval).searchList
        (fun pair => loadAddress? count pair.1 pair.2) 0 (stretchPairs symbols names)).2 := by
  rw [countedPairs, if_neg hcount, stretchPairs_eq_map, Counter.searchList_map]
  rfl

theorem countedPairs_eq_zero (budget : Budget) (hidle : symbols = [] ∨ names = [] ∨ count = 0) :
    countedPairs budget symbols names count = 0 := by
  rw [countedPairs]
  split
  · rfl
  · rename_i hcount
    rw [equalPairs_eq_nil (hidle.imp_right fun hidle => hidle.resolve_right hcount)]
    rfl

end CountedPairs

/-! ## The pairs of an image -/

namespace Config

variable {config : Config} {image : Image} {budget : Budget}

/-- A symbol takes up at least sixteen bytes. -/
theorem length_symbols_le {table : SymbolTable}
    (h : config.readSymbols image budget = .ok (some table)) :
    table.symbols.length ≤ image.size / 16 := by
  obtain ⟨hfirst, order, hsymbols⟩ := isFirstTable_of_readSymbols h
  have hrecord : 16 ≤ config.release.recordSize := by cases config.release <;> decide
  have hlength := (hfirst.offset_perm order).length_eq
  rw [List.length_map, ← hsymbols, hfirst.length_slots.1] at hlength
  have hextent : table.extent.length ≤ image.size := by
    have := hfirst.inside
    unfold Span.length
    omega
  rw [hlength]
  exact Nat.div_le_div hextent hrecord (by decide)

/-- A name takes up at least one byte. -/
theorem length_names_le (config : Config) (image : Image) (required : Nat) :
    (((config.readNames image required).map (·.names)).getD []).length ≤ image.size := by
  cases hstrings : config.readNames image required with
  | none => exact Nat.zero_le _
  | some table =>
      obtain ⟨spans, _, hentries, hstop, hruns, _⟩ := readNames_entries hstrings
      have hlength := hruns.add_length_le
      show table.names.length ≤ image.size
      rw [hentries, Image.length_entries]
      omega

/-- How many pairs are counted on the way to a load address. There is no correlation if a known address
passes the probe. -/
def loadPairs (config : Config) (strategy : Strategy) (image : Image) (budget : Budget)
    (symbols : List Symbol) (names : List Name) : Nat :=
  match config.knownLoad strategy image symbols with
  | some _ => 0
  | none => FirmwareSymbols.countedPairs budget symbols names (config.requiredCount symbols.length)

/-- How many pairs are counted in an analysis. There are none without a symbol table. -/
def countedPairs (config : Config) (strategy : Strategy) (image : Image) (budget : Budget) : Nat :=
  match config.readSymbols image budget with
  | .ok (some table) =>
    config.loadPairs strategy image budget table.symbols
      (((config.stringsBeside image table).map (·.names)).getD [])
  | _ => 0

end Config

end FirmwareSymbols
