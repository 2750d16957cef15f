import FirmwareSymbols.LoadAddress.Correlate
import FirmwareSymbols.LoadAddress.Probe
import FirmwareSymbols.Report
import FirmwareSymbols.StringTable.Anchor
import FirmwareSymbols.StringTable.Extent
import FirmwareSymbols.Symbol.Order
import FirmwareSymbols.Symbol.Table

/-!
# Analysis of an image

Two chains meet in an analysis. One finds the symbol table, tells its byte
order and decodes it; the other finds an anchor, grows the string table
from it and decodes that. The load address then comes from a probe of
known addresses or from the correlation of the two tables.

An analysis depends on the image, the settings and the budget only. An
`Analyzer` holds settings that have been found valid and gives each
analysis the budget that they name.

## Main definitions

* `Config.readSymbols`, `Config.readNames`: the two chains.
* `Config.analyze`: both chains and the load address, with any budget.
* `Analyzer`: `scan`, `analyze` and `quickProbe` with the budget of the
  settings.
-/

namespace FirmwareSymbols

/-- A symbol table that was found and decoded. -/
structure SymbolTable where
  /-- Where the table lies. -/
  extent : Span
  /-- The byte order of its words. -/
  byteOrder : ByteOrder
  /-- Its symbols, sorted by the address of their names. -/
  symbols : List Symbol
deriving DecidableEq, Repr

/-- A string table that was found and decoded. -/
structure StringTable where
  /-- Where the table lies. -/
  extent : Span
  /-- Its entries, sorted by their place. -/
  names : List Name
deriving DecidableEq, Repr

/-- How the load address is looked for. -/
inductive Strategy where
  /-- By correlation only. -/
  | correlate
  /-- By a probe of the known addresses, and by correlation if none of them passes. -/
  | probeFirst
deriving DecidableEq, Repr

namespace Config

/-- The symbol table of an image. The byte order is detected unless the settings fix it. -/
def readSymbols (config : Config) (image : Image) (budget : Budget) :
    Except Fault (Option SymbolTable) :=
  match config.findTable image budget with
  | .error fault => .error fault
  | .ok none => .ok none
  | .ok (some extent) =>
    let order := config.byteOrder.getD (config.release.detectOrder image extent.start)
    .ok (some ⟨extent, order, config.release.decodeTable image order extent⟩)

/-- What belongs to a string table of which `required` entries are wanted. -/
def tableLimits (config : Config) (required : Nat) : TableLimits :=
  ⟨required, config.maxNameLength.toNat, config.maxStringGap.toNat⟩

/-- The string table of an image, with at least `required` entries. -/
def readNames (config : Config) (image : Image) (required : Nat) : Option StringTable := do
  let anchor ← image.anchor? config.anchorNames
  let located ← (config.tableLimits required).locate image anchor.offset
  return ⟨located.extent, image.namesWithin located.extent⟩

/-- The load address of an image from its decoded tables, and how it was found. -/
def findLoad (config : Config) (strategy : Strategy) (image : Image) (budget : Budget)
    (symbols : List Symbol) (names : List Name) :
    Except Fault (Option (UInt32 × LoadSource)) :=
  let count := config.requiredCount symbols.length
  let known :=
    match strategy with
    | .correlate => none
    | .probeFirst => image.probe symbols count config.knownAddresses
  match known with
  | some load => .ok (some (load, .knownAddress))
  | none =>
    match correlate budget symbols names count with
    | .ok load => .ok (load.map (·, .correlated))
    | .error fault => .error fault

/-- Everything that can be recovered from an image. There is no report if there is no symbol table; the
string table and the load address may be missing from a report. -/
def analyze (config : Config) (strategy : Strategy) (image : Image) (budget : Budget) :
    Except Fault (Option Report) :=
  match config.readSymbols image budget with
  | .error fault => .error fault
  | .ok none => .ok none
  | .ok (some table) =>
    let strings := config.readNames image (config.requiredCount table.symbols.length)
    let names := (strings.map (·.names)).getD []
    match config.findLoad strategy image budget table.symbols names with
    | .error fault => .error fault
    | .ok load =>
      .ok <| some
        { release := config.release
          symbolTable := table.extent
          byteOrder := table.byteOrder
          symbols := table.symbols
          stringTable := strings.map (·.extent)
          names
          loadAddress := load.map (·.1)
          loadSource := load.map (·.2) }

/-- The first of some candidate addresses that passes the probe, if there is a symbol table. -/
def quickProbe (config : Config) (image : Image) (budget : Budget) (candidates : List UInt32) :
    Except Fault (Option UInt32) :=
  match config.readSymbols image budget with
  | .error fault => .error fault
  | .ok none => .ok none
  | .ok (some table) =>
    .ok (image.probe table.symbols (config.requiredCount table.symbols.length) candidates)

end Config

/-! ## Analyzers -/

/-- Settings that the searches can work with. -/
structure Analyzer where
  /-- The settings. -/
  config : Config
  /-- The settings have no defect. -/
  valid : config.Valid

namespace Analyzer

/-- The analyzer with the given settings, which are refused if they have a defect. -/
def ofConfig (config : Config) : Except Fault Analyzer :=
  match h : config.defect? with
  | some defect => .error (.invalidConfig defect.reason)
  | none => .ok ⟨config, Config.defect?_eq_none_iff.1 h⟩

/-- The analyzer with the default settings for a release line. -/
def forRelease (release : Release) : Analyzer :=
  ⟨.forRelease release, Config.valid_forRelease release⟩

/-- Both tables, and the load address by correlation only. -/
def scan (analyzer : Analyzer) (image : Image) : Except Fault (Option Report) :=
  analyzer.config.analyze .correlate image analyzer.config.budget

/-- Both tables, and the load address by a probe of the known addresses or else by correlation. -/
def analyze (analyzer : Analyzer) (image : Image) : Except Fault (Option Report) :=
  analyzer.config.analyze .probeFirst image analyzer.config.budget

/-- The first of some candidate load addresses that passes the probe. -/
def quickProbe (analyzer : Analyzer) (image : Image) (candidates : List UInt32) :
    Except Fault (Option UInt32) :=
  analyzer.config.quickProbe image analyzer.config.budget candidates

end Analyzer

end FirmwareSymbols
