import FirmwareSymbols.Analysis
import FirmwareSymbols.CommandLine.Options
import FirmwareSymbols.Report.Text

/-!
# One run of the command line

A run reads the settings and the firmware, analyses it and says what it
found. Its outcome is a value: what is printed on either stream, and
whether a load address was found, was not found, or could not be looked
for.

## Main definitions

* `Options.config`: the settings of a run.
* `Options.run`: the outcome of a run.
* `Outcome.standardOutput`: what a run prints.
-/

namespace FirmwareSymbols

/-- How a run ended. -/
inductive Status where
  /-- A load address was found. -/
  | found
  /-- The run could not be completed. -/
  | failed
  /-- No load address was found. -/
  | notFound
deriving DecidableEq, Repr

/-- The exit code of a run. -/
def Status.code : Status → UInt32
  | found => 0
  | failed => 1
  | notFound => 2

/-- What a run leaves behind. -/
structure Outcome where
  /-- How the run ended. -/
  status : Status
  /-- The texts on standard output, each of which ends a line. -/
  output : List String := []
  /-- The texts on standard error, each of which ends a line. -/
  errors : List String := []
deriving DecidableEq, Repr

namespace Outcome

/-- Texts as lines. -/
def lines (texts : List String) : String := String.join (texts.map (· ++ "\n"))

/-- All that a run prints on standard output. -/
def standardOutput (outcome : Outcome) : String := lines outcome.output

/-- All that a run prints on standard error. -/
def standardError (outcome : Outcome) : String := lines outcome.errors

end Outcome

/-- A fault together with what was being done. -/
structure Failure where
  /-- What was being done, if that needs saying. -/
  context : Option String
  /-- The fault. -/
  fault : Fault
deriving DecidableEq, Repr

namespace Failure

/-- What is said about a fault. The reason why a file could not be read is said once as part of the
fault and once as its cause. -/
def explain : Fault → String
  | .unreadable reason => Fault.message (.unreadable reason) ++ ": " ++ reason
  | fault => fault.message

/-- What is said about a failure. -/
def message (failure : Failure) : String :=
  match failure.context with
  | some context => context ++ ": " ++ explain failure.fault
  | none => explain failure.fault

/-- Says what was being done when a fault came up. -/
def during {α : Type} (context : Option String) : Except Fault α → Except Failure α
  | .ok value => .ok value
  | .error fault => .error ⟨context, fault⟩

end Failure

/-- Addresses followed by those of a second list that do not occur before, each once. -/
def mergeAddresses (addresses more : List UInt32) : List UInt32 :=
  more.foldl (fun merged a => if merged.contains a then merged else merged ++ [a]) addresses

namespace Options

/-- Settings with the changes that the options make. -/
def override (options : Options) (config : Config) : Config :=
  { config with
    release := options.release.getD config.release
    byteOrder := options.byteOrder.or config.byteOrder
    knownAddresses := mergeAddresses config.knownAddresses options.knownAddresses
    parallelScan := config.parallelScan && !options.sequential
    timeBudgetMillis := options.timeBudgetMillis.or config.timeBudgetMillis }

/-- The settings of a run. -/
def config (options : Options) (files : Files) : Except Failure Config := do
  match options.configFile with
  | none => return options.override {}
  | some name =>
    let base ← Failure.during (some ("loading config " ++ name)) (files.loadConfig name)
    return options.override base

/-- The outcome of a run that only probes. -/
def reportProbe (options : Options) (load : Option UInt32) : Outcome :=
  let written := Json.ofMembers [("load_address", .ofOption (fun a => .ofNat a.toNat) load)]
  match load, options.json with
  | some _, true => { status := .found, output := [written.compactText] }
  | some load, false =>
    { status := .found, output := ["load address: " ++ Numeral.hex load.toNat] }
  | none, true => { status := .notFound, output := [written.compactText] }
  | none, false => { status := .notFound, errors := ["no known load address matches"] }

/-- The outcome of a run that analyses. -/
def reportAnalysis (options : Options) : Option Report → Outcome
  | none =>
    if options.json then
      { status := .notFound
        output := [(Json.ofMembers [("symbol_table", .null)]).compactText] }
    else
      { status := .notFound, errors := ["Can't find symbols in binary"] }
  | some report =>
    let output :=
      if options.json then [report.toJson.prettyText] else report.summaryLines
    if report.loadAddress.isSome then
      { status := .found, output }
    else if options.json then
      { status := .notFound, output }
    else
      { status := .notFound, output
        errors := ["We didn't find load address in this firmware, sorry!"] }

/-- The outcome of a run that has settings and an image, unless a search fails. -/
def examine (options : Options) (config : Config) (image : Image) (budget : Budget) :
    Except Fault Outcome :=
  if options.quick then
    (config.quickProbe image budget config.knownAddresses).map options.reportProbe
  else
    (config.analyze .probeFirst image budget).map options.reportAnalysis

/-- The outcome of a run, unless something goes wrong. What budget the searches have depends on the
settings. -/
def attempt (options : Options) (files : Files) (budget : Config → Budget) :
    Except Failure Outcome := do
  let config ← options.config files
  let analyzer ← Failure.during (some "invalid configuration") (Analyzer.ofConfig config)
  let image ←
    Failure.during (some ("loading " ++ options.firmware))
      (files.loadImage options.maxFileSize options.firmware)
  Failure.during none (options.examine analyzer.config image (budget analyzer.config))

/-- The outcome of a run whose searches have the given budget. -/
def runWithin (options : Options) (files : Files) (budget : Config → Budget) : Outcome :=
  match options.attempt files budget with
  | .ok outcome => outcome
  | .error failure => { status := .failed, errors := ["error: " ++ failure.message] }

/-- The outcome of a run whose searches have the budget that the settings name. -/
def run (options : Options) (files : Files) : Outcome := options.runWithin files Config.budget

end Options

end FirmwareSymbols
