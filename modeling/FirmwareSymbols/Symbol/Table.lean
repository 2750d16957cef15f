import FirmwareSymbols.Budget
import FirmwareSymbols.Config
import FirmwareSymbols.Symbol.Format

/-!
# Finding the symbol table

The table is a run of records without a header. A record alone is weak
evidence, so a table begins only where a whole run of records begins; and
since neighbouring names lie close together, the name addresses of a 5.x
run must agree in one of their two halves, and in one only.

## Main definitions

* `Release.startsRun`: whether a run of records begins at an offset.
* `Release.runEnd`: where the run that begins at an offset is over.
* `Config.findTable`: the extent of the first table of an image.

## Main results

* `Release.holdsRecords_iff`: what a run is, record by record.
* `Release.recordAt_runEnd`: behind the end of a run no record begins.
-/

namespace FirmwareSymbols

namespace Release

/-! ## Runs -/

/-- Whether `count` records begin one behind the other at an offset. -/
def holdsRecords (release : Release) (image : Image) (offset : Nat) : Nat → Bool
  | 0 => true
  | count + 1 =>
    release.recordAt image offset
      && release.holdsRecords image (offset + release.recordSize) count

/-- Whether two bytes at a distance from the beginning of each record are the same in all of `count`
neighbouring records. -/
def isSteady (release : Release) (image : Image) (distance offset : Nat) : Nat → Bool
  | 0 | 1 => true
  | count + 2 =>
    image.window (offset + distance) 2
        == image.window (offset + release.recordSize + distance) 2
      && release.isSteady image distance (offset + release.recordSize) (count + 1)

/-- Where the two halves of a name address lie in a record. -/
def firstHalf : Nat := 4

/-- Where the second half of a name address lies in a record. -/
def secondHalf : Nat := 6

/-- Whether a table may begin at an offset: a run of at least `minRun` records does, and for 5.x the
name addresses of that run are steady in exactly one half. -/
def startsRun (release : Release) (image : Image) (minRun offset : Nat) : Bool :=
  release.holdsRecords image offset minRun &&
    match release with
    | v5 => Bool.xor (release.isSteady image firstHalf offset minRun)
        (release.isSteady image secondHalf offset minRun)
    | v6 => true

/-- The first offset behind the run of records that begins at an offset. -/
def runEnd (release : Release) (image : Image) (offset : Nat) : Nat :=
  if release.recordAt image offset = true then
    release.runEnd image (offset + release.recordSize)
  else
    offset
termination_by image.size - offset
decreasing_by
  have := fits_of_recordAt ‹_›
  have := release.recordSize_pos
  omega

theorem holdsRecords_iff {release : Release} {image : Image} {offset count : Nat} :
    release.holdsRecords image offset count = true ↔
      ∀ k, k < count → release.recordAt image (offset + k * release.recordSize) = true := by
  induction count generalizing offset with
  | zero => simp [holdsRecords]
  | succ count ih =>
    simp only [holdsRecords, Bool.and_eq_true, ih]
    constructor
    · rintro ⟨first, rest⟩ k hk
      cases k with
      | zero => simpa using first
      | succ k =>
        have := rest k (by omega)
        rwa [Nat.add_assoc, Nat.add_comm release.recordSize, ← Nat.succ_mul] at this
    · intro all
      refine ⟨by simpa using all 0 (by omega), fun k hk => ?_⟩
      have := all (k + 1) (by omega)
      rwa [Nat.add_assoc, Nat.add_comm release.recordSize, ← Nat.succ_mul]

/-- Behind the end of a run no record begins. -/
theorem recordAt_runEnd (release : Release) (image : Image) (offset : Nat) :
    release.recordAt image (release.runEnd image offset) = false := by
  fun_induction runEnd release image offset with
  | case1 offset h ih => exact ih
  | case2 offset h => simpa using h

end Release

/-! ## Scanning an image -/

/-- Candidate offsets in one block of a block-wise scan. -/
def blockSize : Nat := 65536

/-- Iterations between two readings of the clock in a block. -/
def blockInterval : Nat := 4096

/-- The first of `candidates` offsets that passes a test, in one scan. -/
def scanInOrder (budget : Budget) (test : Nat → Bool) (candidates : Nat) :
    Except Fault (Option Nat) :=
  (budget.counter .sequentialScan defaultInterval).firstSome
    (fun offset => if test offset then some offset else none) 0 0 candidates

/-- The first offset of one block that passes a test. -/
def scanBlock (budget : Budget) (test : Nat → Bool) (candidates index : Nat) :
    Except Fault (Option Nat) :=
  (budget.counter (.blockScan index) blockInterval).firstSome
    (fun offset => if test offset then some offset else none) 0 (index * blockSize)
    (min blockSize (candidates - index * blockSize))

/-- The answer of the first of `blocks` blocks that has a hit or a fault. Each block is a search of its
own, so the blocks may be searched in any order or at once. What is assumed of a parallel `find_first` over
the blocks is its contract: of all blocks with a hit or a fault it gives the one that comes first in their
order, however the searches are interleaved, and none only if there is none. -/
def scanBlocks (budget : Budget) (test : Nat → Bool) (candidates index : Nat) :
    Nat → Except Fault (Option Nat)
  | 0 => .ok none
  | blocks + 1 =>
    match scanBlock budget test candidates index with
    | .ok none => scanBlocks budget test candidates (index + 1) blocks
    | decided => decided

/-- The blocks are searched in order until one of them has a hit or a fault. -/
theorem scanBlocks_succ (budget : Budget) (test : Nat → Bool) (candidates index blocks : Nat) :
    scanBlocks budget test candidates index (blocks + 1) =
      (scanBlock budget test candidates index).bind fun
        | none => scanBlocks budget test candidates (index + 1) blocks
        | some offset => .ok (some offset) := by
  rw [scanBlocks]
  cases scanBlock budget test candidates index with
  | error fault => rfl
  | ok hit => cases hit <;> rfl

namespace Config

/-- The first offset at which a table may begin, among the candidates `0, 1, …`. -/
def findStart (config : Config) (image : Image) (budget : Budget) (candidates : Nat) :
    Except Fault (Option Nat) :=
  let test := config.release.startsRun image config.minTableRun.toNat
  if config.parallelScan then
    scanBlocks budget test candidates 0 ((candidates + blockSize - 1) / blockSize)
  else
    scanInOrder budget test candidates

/-- The extent of the first symbol table of an image. An image with no room for a single record cannot
be analysed; one with no room for a whole run has no table. -/
def findTable (config : Config) (image : Image) (budget : Budget) : Except Fault (Option Span) :=
  let record := config.release.recordSize
  let run := record * config.minTableRun.toNat
  if image.size < record then
    .error (.shortImage image.size record)
  else if image.size < run then
    .ok none
  else
    match config.findStart image budget (image.size - run + 1) with
    | .ok (some start) => .ok (some ⟨start, config.release.runEnd image start⟩)
    | .ok none => .ok none
    | .error fault => .error fault

end Config

end FirmwareSymbols
