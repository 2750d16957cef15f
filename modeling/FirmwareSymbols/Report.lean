import FirmwareSymbols.Release
import FirmwareSymbols.Span
import FirmwareSymbols.StringTable
import FirmwareSymbols.Symbol.Decode

/-!
# Reports

A `Report` is all that one analysis has recovered from an image. Its
symbols are sorted by the address of their names, its names by their
place.

## Main definitions

* `Report.classCounts`: how many symbols there are of each class.
* `Report.inTableOrder`: the symbols in the order of their records.

## Main results

* `sum_tally`: counting one more symbol adds one to the total.
-/

namespace FirmwareSymbols

/-- How a load address was found. -/
inductive LoadSource where
  /-- One of the addresses that have been seen before passed the probe. -/
  | knownAddress
  /-- The lengths of the symbols' names were found in the string table. -/
  | correlated
deriving DecidableEq, Repr

/-- All that one analysis has recovered from an image. -/
structure Report where
  /-- The layout of the records. -/
  release : Release
  /-- Where the symbol table lies. -/
  symbolTable : Span
  /-- The byte order of the image. -/
  byteOrder : ByteOrder
  /-- The symbols, sorted by the address of their names. -/
  symbols : List Symbol
  /-- Where the string table lies, if it was found. -/
  stringTable : Option Span
  /-- The entries of the string table, sorted by their place. -/
  names : List Name
  /-- The address at which the image is loaded, if it was found. -/
  loadAddress : Option UInt32
  /-- How the load address was found. -/
  loadSource : Option LoadSource
deriving DecidableEq, Repr

/-- Counts one more of a kind. A kind that has not been seen comes last. -/
def tally {α : Type} [DecidableEq α] (kind : α) : List (α × Nat) → List (α × Nat)
  | [] => [(kind, 1)]
  | (seen, n) :: rest =>
    if seen = kind then (seen, n + 1) :: rest else (seen, n) :: tally kind rest

/-- Counting one more adds one to the total. -/
theorem sum_tally {α : Type} [DecidableEq α] (kind : α) (counts : List (α × Nat)) :
    (tally kind counts).foldr (fun entry total => entry.2 + total) 0 =
      counts.foldr (fun entry total => entry.2 + total) 0 + 1 := by
  fun_induction tally kind counts with
  | case1 => rfl
  | case2 n rest => simp only [List.foldr_cons]; omega
  | case3 seen n rest h ih => simp only [List.foldr_cons, ih]; omega

namespace Report

/-- How many symbols there are of each class, in the order in which the classes first occur. -/
def classCounts (report : Report) : List (SymbolClass × Nat) :=
  report.symbols.foldl (fun counts s => tally s.symbolClass counts) []

/-- The symbols in the order of their records in the image. -/
def inTableOrder (report : Report) : List Symbol := Symbol.sortByOffset report.symbols

end Report

end FirmwareSymbols
