import FirmwareSymbols.Config
import FirmwareSymbols.Files
import FirmwareSymbols.Text.Numeral

/-!
# Options of the command line

The command line names one firmware file and changes settings by options.
An option that takes a value has it behind an equals sign or in the next
argument; no option but the candidate addresses may be given twice. Behind
`--` everything is a file name.

## Main definitions

* `Options`: what a command line says.
* `Argument.classify`: what one argument is.
* `Options.parse?`: the options of a command line, unless it is refused.
-/

namespace FirmwareSymbols

/-- What a command line says. -/
structure Options where
  /-- The firmware file. -/
  firmware : String
  /-- The release line, in place of the one in the settings. -/
  release : Option Release := none
  /-- The byte order, in place of the one in the settings. -/
  byteOrder : Option ByteOrder := none
  /-- The file that holds the settings. -/
  configFile : Option String := none
  /-- Load addresses to probe behind those in the settings. -/
  knownAddresses : List UInt32 := []
  /-- Only probe load addresses. -/
  quick : Bool := false
  /-- Scan for the symbol table in one go. -/
  sequential : Bool := false
  /-- The budget of the searches, in place of the one in the settings. -/
  timeBudgetMillis : Option UInt64 := none
  /-- Bytes of the largest firmware file that is read. -/
  maxFileSize : UInt64 := Files.defaultMaxSize
  /-- Print JSON. -/
  json : Bool := false
  /-- Log in JSON. -/
  logJson : Bool := false
  /-- How much to log. -/
  verbosity : UInt8 := 0
deriving DecidableEq, Repr

/-- Which log lines a verbosity lets through. -/
def logFilter (verbosity : UInt8) : String :=
  if verbosity = 0 then "warn,vxhunter=info"
  else if verbosity = 1 then "warn,vxhunter=debug"
  else "info,vxhunter=trace"

/-! ## Values -/

/-- A text without all the endings `.x` behind it, given and answered in reverse. -/
def dropWildcards : List Char → List Char
  | 'x' :: '.' :: rest => dropWildcards rest
  | text => text

/-- A release line: its major version number, behind which `.x` may stand. -/
def readRelease? (text : String) : Option Release := do
  let digits := (dropWildcards text.toList.reverse).reverse
  let major ← Numeral.signed? Numeral.decimal? digits
  Release.ofMajor? (← Numeral.below? UInt8.size major)

/-- An address in decimal, or in hexadecimal behind `0x`. -/
def readAddress? (text : String) : Option UInt32 := do
  let value ←
    match text.toList with
    | '0' :: 'x' :: digits | '0' :: 'X' :: digits =>
      Numeral.signed? Numeral.hexadecimal? digits
    | digits => Numeral.signed? Numeral.decimal? digits
  return UInt32.ofNat (← Numeral.below? UInt32.size value)

/-- A 64-bit number in decimal. -/
def readNumber? (text : String) : Option UInt64 := do
  let value ← Numeral.signed? Numeral.decimal? text.toList
  return UInt64.ofNat (← Numeral.below? UInt64.size value)

/-- The name of a file, which may not be empty. -/
def readFileName? (text : String) : Option String := if text = "" then none else some text

/-! ## Arguments -/

/-- The options that take a value. -/
inductive ValueOption where
  /-- The release line. -/
  | release
  /-- The byte order. -/
  | byteOrder
  /-- The file that holds the settings. -/
  | configFile
  /-- One more load address to probe. -/
  | knownAddress
  /-- The budget of the searches. -/
  | timeBudget
  /-- The size of the largest file. -/
  | maxFileSize
deriving DecidableEq, Repr

/-- The options that take no value. -/
inductive Switch where
  /-- Only probe load addresses. -/
  | quick
  /-- Scan in one go. -/
  | sequential
  /-- Print JSON. -/
  | json
  /-- Log in JSON. -/
  | logJson
deriving DecidableEq, Repr

/-- What one argument is. -/
inductive Argument where
  /-- The end of the options. -/
  | endOfOptions
  /-- An option that takes a value, with the value if it stands in the same argument. -/
  | valued (option : ValueOption) (value : Option String)
  /-- An option that takes no value. -/
  | switch (option : Switch)
  /-- A wish for more log lines, so many times. -/
  | verbose (times : Nat)
  /-- The name of a file. -/
  | file (name : String)
deriving DecidableEq, Repr

/-- The options that take a value, by name. -/
def valueOptions : List (String × ValueOption) :=
  [ ("vx", .release), ("endian", .byteOrder), ("config", .configFile),
    ("known-address", .knownAddress), ("time-budget-ms", .timeBudget),
    ("max-file-size", .maxFileSize) ]

/-- The options that take no value, by name. -/
def switches : List (String × Switch) :=
  [("quick", .quick), ("sequential", .sequential), ("json", .json), ("log-json", .logJson)]

namespace Argument

/-- What an option is whose name and value are given without the dashes in front. -/
def classifyLong (content : List Char) : Option Argument :=
  let name := String.ofList (content.takeWhile (· != '='))
  let value :=
    match content.dropWhile (· != '=') with
    | [] => none
    | _ :: value => some (String.ofList value)
  match valueOptions.lookup name with
  | some option => some (valued option value)
  | none =>
    if value.isSome then none
    else if name = "verbose" then some (verbose 1)
    else (switches.lookup name).map switch

/-- What an argument is. A dash alone is the name of a file; any other word with a dash in front must be
an option. -/
def classify (word : String) : Option Argument :=
  match word.toList with
  | ['-', '-'] => some endOfOptions
  | '-' :: '-' :: content => classifyLong content
  | '-' :: c :: letters =>
    if (c :: letters).all (· == 'v') then some (verbose (letters.length + 1)) else none
  | _ => some (file word)

/-- Whether a word may be the value of the option before it. -/
def mayBeValue (word : String) : Bool :=
  match word.toList with
  | '-' :: _ :: _ => false
  | _ => true

end Argument

/-! ## Command lines -/

/-- What the arguments have said so far. -/
structure Draft where
  /-- The firmware file. -/
  firmware : Option String := none
  /-- The release line. -/
  release : Option Release := none
  /-- The byte order. -/
  byteOrder : Option ByteOrder := none
  /-- The file that holds the settings. -/
  configFile : Option String := none
  /-- The load addresses, in order. -/
  knownAddresses : List UInt32 := []
  /-- The options without a value that were given. -/
  switches : List Switch := []
  /-- The budget of the searches. -/
  timeBudgetMillis : Option UInt64 := none
  /-- The size of the largest file. -/
  maxFileSize : Option UInt64 := none
  /-- How often more log lines were wished for. -/
  verbosity : Nat := 0

namespace Draft

/-- Fills a place that must still be empty. -/
def fill? {α : Type} (place value : Option α) : Option (Option α) :=
  if place.isSome then none else value.map some

/-- Takes the name of the firmware file. There may be only one. -/
def setFirmware? (draft : Draft) (name : String) : Option Draft := do
  return { draft with firmware := ← fill? draft.firmware (readFileName? name) }

/-- Takes an option with its value. -/
def setValue? (draft : Draft) (option : ValueOption) (value : String) : Option Draft := do
  match option with
  | .release => return { draft with release := ← fill? draft.release (readRelease? value) }
  | .byteOrder =>
    return { draft with byteOrder := ← fill? draft.byteOrder (ByteOrder.ofText value).toOption }
  | .configFile =>
    return { draft with configFile := ← fill? draft.configFile (readFileName? value) }
  | .knownAddress =>
    return { draft with knownAddresses := draft.knownAddresses ++ [← readAddress? value] }
  | .timeBudget =>
    return { draft with timeBudgetMillis := ← fill? draft.timeBudgetMillis (readNumber? value) }
  | .maxFileSize =>
    return { draft with maxFileSize := ← fill? draft.maxFileSize (readNumber? value) }

/-- Takes an option without a value. -/
def setSwitch? (draft : Draft) (option : Switch) : Option Draft :=
  if draft.switches.contains option then none
  else some { draft with switches := option :: draft.switches }

/-- Takes the arguments of a command line, one after the other. -/
def read? (draft : Draft) : List String → Option Draft
  | [] => some draft
  | word :: rest => do
    match ← Argument.classify word with
    | .endOfOptions => rest.foldlM setFirmware? draft
    | .file name => (← draft.setFirmware? name).read? rest
    | .switch option => (← draft.setSwitch? option).read? rest
    | .verbose times => read? { draft with verbosity := draft.verbosity + times } rest
    | .valued option (some value) => (← draft.setValue? option value).read? rest
    | .valued option none =>
      match rest with
      | value :: rest =>
        if Argument.mayBeValue value then (← draft.setValue? option value).read? rest else none
      | [] => none

/-- The options that were given, unless the firmware file is missing. -/
def finish? (draft : Draft) : Option Options :=
  draft.firmware.map fun firmware =>
    { firmware
      release := draft.release
      byteOrder := draft.byteOrder
      configFile := draft.configFile
      knownAddresses := draft.knownAddresses
      quick := draft.switches.contains .quick
      sequential := draft.switches.contains .sequential
      timeBudgetMillis := draft.timeBudgetMillis
      maxFileSize := draft.maxFileSize.getD Files.defaultMaxSize
      json := draft.switches.contains .json
      logJson := draft.switches.contains .logJson
      verbosity := UInt8.ofNat (min draft.verbosity 255) }

end Draft

/-- The options of a command line, unless it is refused. -/
def Options.parse? (arguments : List String) : Option Options :=
  (Draft.read? {} arguments).bind (·.finish?)

end FirmwareSymbols
