import FirmwareSymbols.Fault

/-!
# Search budgets

The scan for the symbol table and the correlation of the two tables are
long loops over untrusted input, and a `Budget` may bound them. Every
search counts its iterations; at each multiple of an interval the counter
reads the clock and the search fails if the budget has run out by then.

The clock is an input of the model: a bounded budget holds what each
counter is told at each of its iterations, and nothing is assumed of
these readings. Statements about budgets therefore hold for every
behaviour of a clock.

## Main definitions

* `Budget`: what the clock says, if anybody asks it.
* `Counter.check`: whether a search may make one more iteration.
* `Counter.firstSome`: a search that counts each candidate before it
  tests it.

## Main results

* `Counter.firstSome_unbounded`: without a budget the counted search is
  the plain search `firstSomeFrom`.
-/

namespace FirmwareSymbols

/-! ## Clocks and budgets -/

/-- The searches that count their iterations, each with a counter of its own. -/
inductive Search where
  /-- The scan of all candidate offsets by one counter. -/
  | sequentialScan
  /-- The scan of one block of candidate offsets. -/
  | blockScan (index : Nat)
  /-- The correlation of symbol lengths with string lengths. -/
  | correlation
deriving DecidableEq, Repr

/-- What a search is called when its budget runs out. -/
def Search.operation : Search → String
  | sequentialScan | blockScan _ => "symbol_table_scan"
  | correlation => "load_address_resolve"

/-- How long a search may take. -/
inductive Budget where
  /-- There is no limit, and nobody reads the clock. -/
  | unbounded
  /-- There is a limit. A reading of the clock by a search at its `k`-th iteration gives the elapsed
  milliseconds if the limit has been passed. -/
  | bounded (reading : Search → Nat → Option Nat)

namespace Budget

/-- The budget of a number of milliseconds. A budget of zero has run out before the first reading;
any longer one is taken to outlast the searches. -/
def ofMillis : Option UInt64 → Budget
  | none => unbounded
  | some limit => bounded fun _ _ => if limit = 0 then some 0 else none

/-- Whether there is a limit. -/
def isBounded : Budget → Bool
  | unbounded => false
  | bounded _ => true

/-- Whether the limit has been passed when a search reads the clock at an iteration. -/
def hasExpired (budget : Budget) (search : Search) (iteration : Nat) : Bool :=
  match budget with
  | unbounded => false
  | bounded reading => (reading search iteration).isSome

end Budget

/-! ## Counters -/

/-- Iterations between two readings of the clock, unless a search says otherwise. -/
def defaultInterval : Nat := 1024

/-- Counts the iterations of one search against a budget. -/
structure Counter where
  /-- What the search is called when the budget runs out. -/
  operation : String
  /-- Iterations between two readings of the clock. -/
  interval : Nat
  /-- What the clock says at an iteration; nobody asks it if there is no limit. -/
  reading : Option (Nat → Option Nat)

namespace Budget

/-- The counter of a search; an interval of zero counts as one. -/
def counter (budget : Budget) (search : Search) (interval : Nat) : Counter where
  operation := search.operation
  interval := max interval 1
  reading :=
    match budget with
    | unbounded => none
    | bounded reading => some (reading search)

end Budget

namespace Counter

/-- Whether the search may make its `iteration`-th iteration; the first one has number one. -/
def check (counter : Counter) (iteration : Nat) : Except Fault Unit :=
  match counter.reading with
  | none => .ok ()
  | some reading =>
    if iteration % counter.interval = 0 then
      match reading iteration with
      | some elapsed => .error (.searchExhausted counter.operation iteration elapsed)
      | none => .ok ()
    else
      .ok ()

/-- The faults of the `count` iterations that follow the first `done` ones. A counter goes on
counting after a fault. -/
def faults (counter : Counter) (done count : Nat) : List Fault :=
  (List.range' (done + 1) count).filterMap fun iteration =>
    match counter.check iteration with
    | .ok () => none
    | .error fault => some fault

/-- Tests the candidates `from, from + 1, …` in turn, `count` of them, and gives the first answer. The
counter is checked before each test; `done` iterations have been counted already. -/
def firstSome {β : Type} (counter : Counter) (test : Nat → Option β) (done candidate : Nat) :
    Nat → Except Fault (Option β)
  | 0 => .ok none
  | count + 1 =>
    match counter.check (done + 1) with
    | .error fault => .error fault
    | .ok () =>
      match test candidate with
      | some answer => .ok (some answer)
      | none => counter.firstSome test (done + 1) (candidate + 1) count

end Counter

/-- The first answer among the tests of `candidate, candidate + 1, …`, `count` of them. -/
def firstSomeFrom {β : Type} (test : Nat → Option β) (candidate : Nat) : Nat → Option β
  | 0 => none
  | count + 1 => (test candidate).or (firstSomeFrom test (candidate + 1) count)

namespace Counter

/-- Without a limit the counter has no effect. -/
theorem firstSome_unbounded {β : Type} {counter : Counter} (free : counter.reading = none)
    (test : Nat → Option β) (done candidate count : Nat) :
    counter.firstSome test done candidate count = .ok (firstSomeFrom test candidate count) := by
  induction count generalizing done candidate with
  | zero => rfl
  | succ count ih =>
    simp only [firstSome, check, free, firstSomeFrom]
    cases test candidate with
    | some answer => rfl
    | none => simpa using ih (done + 1) (candidate + 1)

end Counter

end FirmwareSymbols
