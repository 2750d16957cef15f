import FirmwareSymbols.Budget
import FirmwareSymbols.StringTable
import FirmwareSymbols.Symbol
import Std.Data.HashMap

/-!
# Correlating the two tables

Sorted by name address, the symbols measure the same names that the string
table holds. Where a stretch of symbols and a stretch of strings agree in
their lengths, the two tables are aligned: a symbol and a string of the
stretch are the same name, and the distance between its address and its
place in the image is the load address.

The pairs of a symbol and a string that may begin such a stretch are those
of equal length. They are tried symbol by symbol and, for one symbol,
string by string.

## Main definitions

* `lengthIndex`: the strings of each length.
* `loadAddress?`: the load address that a pair implies, if the stretches
  agree.
* `correlate`: the load address of the first pair that implies one.

## Main results

* `runAgrees_iff`: what it means that two stretches agree.
-/

namespace FirmwareSymbols

/-! ## Stretches -/

/-- Whether a symbol may be the name of an entry: their lengths are equal, or the symbol has none. -/
def lengthAgrees (s : Symbol) (name : Name) : Bool :=
  s.nameLength.all (·.toNat == name.length)

/-- Whether the first `count` symbols and the first `count` names agree in their lengths, which
includes that there are as many. -/
def runAgrees : Nat → List Symbol → List Name → Bool
  | 0, _, _ => true
  | count + 1, s :: symbols, name :: names =>
    lengthAgrees s name && runAgrees count symbols names
  | _ + 1, _, _ => false

theorem runAgrees_iff {count : Nat} {symbols : List Symbol} {names : List Name} :
    runAgrees count symbols names = true ↔
      count ≤ symbols.length ∧ count ≤ names.length ∧
        ∀ pair ∈ (symbols.zip names).take count, lengthAgrees pair.1 pair.2 = true := by
  induction count generalizing symbols names with
  | zero => simp [runAgrees]
  | succ count ih =>
    match symbols, names with
    | [], _ => simp [runAgrees]
    | _ :: _, [] => simp [runAgrees]
    | s :: symbols, name :: names =>
      simp only [runAgrees, Bool.and_eq_true, ih, List.length_cons, Nat.add_le_add_iff_right,
        List.zip_cons_cons, List.take_succ_cons, List.forall_mem_cons]
      constructor
      · rintro ⟨first, hs, hn, rest⟩
        exact ⟨hs, hn, first, rest⟩
      · rintro ⟨hs, hn, first, rest⟩
        exact ⟨first, hs, hn, rest⟩

/-! ## Pairs -/

/-- The load address at which a symbol's name would be loaded from where an entry lies, unless it
would be negative. -/
def impliedLoad? (s : Symbol) (name : Name) : Option UInt32 :=
  if name.address ≤ s.nameAddress.toNat then
    some (UInt32.ofNat (s.nameAddress.toNat - name.address))
  else
    none

/-- The load address that follows from the first symbol and the first name, if `count` entries from
there on agree. -/
def loadAddress? (count : Nat) (symbols : List Symbol) (names : List Name) : Option UInt32 :=
  match symbols, names with
  | s :: _, name :: _ => if runAgrees count symbols names then impliedLoad? s name else none
  | _, _ => none

/-- For each length, the tails of the string table that begin with a name of that length, in
order. -/
abbrev LengthIndex := Std.HashMap Nat (Array (List Name))

/-- Adds the tails of a list of names to an index, each behind the tails that are there. -/
def LengthIndex.extend (index : LengthIndex) : List Name → LengthIndex
  | [] => index
  | name :: rest =>
    LengthIndex.extend
      (index.alter name.length fun tails => some ((tails.getD #[]).push (name :: rest))) rest

/-- The strings of each length. -/
def lengthIndex (names : List Name) : LengthIndex := LengthIndex.extend ∅ names

/-- Tries all pairs whose symbol is in a list, which is a tail of the symbol table. Each pair is counted
before it is tried; `done` pairs have been counted already. -/
def correlateFrom (counter : Counter) (index : LengthIndex) (count done : Nat) :
    List Symbol → Except Fault (Option UInt32)
  | [] => .ok none
  | s :: rest =>
    let tails := (s.nameLength.map fun length => index.getD length.toNat #[]).getD #[]
    let test := fun k => (tails[k]?).bind fun names => loadAddress? count (s :: rest) names
    match counter.firstSome test done 0 tails.size with
    | .ok none => correlateFrom counter index count (done + tails.size) rest
    | decided => decided

/-- The load address of the first pair of a symbol and a string from which on `count` entries agree.
There is none if a table is empty or nothing has to agree. -/
def correlate (budget : Budget) (symbols : List Symbol) (names : List Name) (count : Nat) :
    Except Fault (Option UInt32) :=
  if symbols.isEmpty || names.isEmpty || count == 0 then
    .ok none
  else
    correlateFrom (budget.counter .correlation defaultInterval) (lengthIndex names) count 0 symbols

end FirmwareSymbols
