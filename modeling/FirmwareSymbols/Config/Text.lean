import FirmwareSymbols.Config
import FirmwareSymbols.Json.Names
import FirmwareSymbols.Json.Parse
import FirmwareSymbols.Json.Print
import FirmwareSymbols.Json.Read

/-!
# Settings as text

Settings are kept as a JSON object with one member for each setting. A
text names only the settings that it changes; all others keep their
defaults. The settings are checked after the whole text has been read.

## Main definitions

* `Config.toText`: the text of settings.
* `Config.ofText`: the settings that a text names, if they have no defect.
-/

namespace FirmwareSymbols

namespace Config

/-- The names of the settings, in the order in which they are written. -/
def fieldNames : List String :=
  ["version", "endian", "min_table_run", "check_count", "max_name_len", "max_string_gap",
    "known_addresses", "anchor_names", "parallel_scan", "time_budget_ms"]

/-- The written form of settings. -/
def toJson (config : Config) : Json :=
  .ofMembers
    [ ("version", config.release.toJson),
      ("endian", .ofOption ByteOrder.toJson config.byteOrder),
      ("min_table_run", .ofNat config.minTableRun.toNat),
      ("check_count", .ofNat config.checkCount.toNat),
      ("max_name_len", .ofNat config.maxNameLength.toNat),
      ("max_string_gap", .ofNat config.maxStringGap.toNat),
      ("known_addresses", .ofList (fun address => .ofNat address.toNat) config.knownAddresses),
      ("anchor_names", .ofList .ofString config.anchorNames),
      ("parallel_scan", .bool config.parallelScan),
      ("time_budget_ms", .ofOption (fun limit => .ofNat limit.toNat) config.timeBudgetMillis) ]

/-- The settings with the given values, where there are any, and with defaults elsewhere. -/
def ofFields? (defaults : Config) : List (Option Json) → Option Config
  | [release, byteOrder, minTableRun, checkCount, maxNameLength, maxStringGap, knownAddresses,
      anchorNames, parallelScan, timeBudgetMillis] => do
    return {
      release := ← Json.defaulted? defaults.release Release.ofJson? release
      byteOrder := ← Json.defaulted? defaults.byteOrder (·.option? ByteOrder.ofJson?) byteOrder
      minTableRun := ← Json.defaulted? defaults.minTableRun Json.uint64? minTableRun
      checkCount := ← Json.defaulted? defaults.checkCount Json.uint64? checkCount
      maxNameLength := ← Json.defaulted? defaults.maxNameLength Json.uint64? maxNameLength
      maxStringGap := ← Json.defaulted? defaults.maxStringGap Json.uint64? maxStringGap
      knownAddresses :=
        ← Json.defaulted? defaults.knownAddresses (·.listOf? Json.uint32?) knownAddresses
      anchorNames := ← Json.defaulted? defaults.anchorNames (·.listOf? Json.text?) anchorNames
      parallelScan := ← Json.defaulted? defaults.parallelScan Json.bool? parallelScan
      timeBudgetMillis :=
        ← Json.defaulted? defaults.timeBudgetMillis (·.option? Json.uint64?) timeBudgetMillis }
  | _ => none

/-- The settings that are written in a value, whether or not they have a defect. -/
def ofJson? (value : Json) : Option Config :=
  (value.fields? fieldNames true).bind (ofFields? {})

/-- The text of settings. -/
def toText (config : Config) : String := config.toJson.prettyText

/-- The settings that a text names. The text is refused if it is no JSON text or if a setting has a
value of a wrong type, and the settings are refused if they have a defect. -/
def ofText (text : String) : Except Fault Config :=
  match (Json.parse? text).bind ofJson? with
  | none => .error (.serialization "not the text of settings")
  | some config =>
    match config.validate with
    | .ok () => .ok config
    | .error fault => .error fault

end Config

end FirmwareSymbols
