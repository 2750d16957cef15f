import FirmwareSymbols.Fault
import FirmwareSymbols.Json.Names
import FirmwareSymbols.Json.Parse
import FirmwareSymbols.Json.Print
import FirmwareSymbols.Json.Read
import FirmwareSymbols.Report
import FirmwareSymbols.Text.Numeral

/-!
# Reports as text

A report is written in two ways: as JSON, which can be read back, and as a
summary for people.

## Main definitions

* `Report.toJson`, `Report.ofText`: the JSON form and its reading.
* `Report.summaryLines`: the summary.
-/

namespace FirmwareSymbols

/-! ## The parts of a report in JSON -/

namespace Span

/-- The written form of a span. -/
def toJson (s : Span) : Json := .ofMembers [("start", .ofNat s.start), ("end", .ofNat s.stop)]

/-- The span that is written in a value. -/
def ofJson? (value : Json) : Option Span := do
  match ← value.fields? ["start", "end"] false with
  | [start, stop] =>
    return ⟨← Json.required? Json.offset? start, ← Json.required? Json.offset? stop⟩
  | _ => none

end Span

namespace Symbol

/-- The names of the fields of a symbol, in the order in which they are written. -/
def fieldNames : List String :=
  ["offset", "name_address", "dest_address", "name_length", "flags", "type_code"]

/-- The written form of a symbol. -/
def toJson (s : Symbol) : Json :=
  .ofMembers
    [ ("offset", .ofNat s.offset),
      ("name_address", .ofNat s.nameAddress.toNat),
      ("dest_address", .ofNat s.destAddress.toNat),
      ("name_length", .ofOption (fun length => .ofNat length.toNat) s.nameLength),
      ("flags", .ofNat s.flags.toNat),
      ("type_code", .ofNat s.typeCode.toNat) ]

/-- The symbol that is written in a value. -/
def ofJson? (value : Json) : Option Symbol := do
  match ← value.fields? fieldNames false with
  | [offset, nameAddress, destAddress, nameLength, flags, typeCode] =>
    return {
      offset := ← Json.required? Json.offset? offset
      nameAddress := ← Json.required? Json.uint32? nameAddress
      destAddress := ← Json.required? Json.uint32? destAddress
      nameLength := ← Json.optional? Json.uint32? nameLength
      flags := ← Json.required? Json.uint32? flags
      typeCode := ← Json.required? Json.uint8? typeCode }
  | _ => none

end Symbol

namespace Name

/-- The written form of an entry of the string table. -/
def toJson (name : Name) : Json :=
  .ofMembers
    [ ("address", .ofNat name.address),
      ("bytes", .ofList (fun byte => .ofNat byte.toNat) name.bytes),
      ("length", .ofNat name.length) ]

/-- The entry that is written in a value. -/
def ofJson? (value : Json) : Option Name := do
  match ← value.fields? ["address", "bytes", "length"] false with
  | [address, bytes, length] =>
    return {
      address := ← Json.required? Json.offset? address
      bytes := ← Json.required? (·.listOf? Json.uint8?) bytes
      length := ← Json.required? Json.offset? length }
  | _ => none

end Name

namespace LoadSource

/-- The spelling of the way in which a load address was found. -/
def spelling : LoadSource → String
  | knownAddress => "KnownAddress"
  | correlated => "Correlated"

/-- Both ways by their spelling. -/
def spellings : List (String × LoadSource) :=
  [(knownAddress.spelling, knownAddress), (correlated.spelling, correlated)]

/-- The written form of the way in which a load address was found. -/
def toJson (source : LoadSource) : Json := .ofString source.spelling

/-- The way that is written in a value. -/
def ofJson? : Json → Option LoadSource := Json.variant? spellings

theorem lookup_spellings (source : LoadSource) : spellings.lookup source.spelling = some source := by
  cases source <;> decide

end LoadSource

/-! ## Reports -/

namespace Report

/-- The names of the parts of a report, in the order in which they are written. -/
def fieldNames : List String :=
  ["version", "symbol_table_range", "endianness", "symbol_table", "string_table_range",
    "string_table", "load_address", "load_address_source"]

/-- The written form of a report. -/
def toJson (report : Report) : Json :=
  .ofMembers
    [ ("version", report.release.toJson),
      ("symbol_table_range", report.symbolTable.toJson),
      ("endianness", report.byteOrder.toJson),
      ("symbol_table", .ofList Symbol.toJson report.symbols),
      ("string_table_range", .ofOption Span.toJson report.stringTable),
      ("string_table", .ofList Name.toJson report.names),
      ("load_address", .ofOption (fun load => .ofNat load.toNat) report.loadAddress),
      ("load_address_source", .ofOption LoadSource.toJson report.loadSource) ]

/-- The report that is written in a value. -/
def ofJson? (value : Json) : Option Report := do
  match ← value.fields? fieldNames false with
  | [release, symbolTable, byteOrder, symbols, stringTable, names, loadAddress, loadSource] =>
    return {
      release := ← Json.required? Release.ofJson? release
      symbolTable := ← Json.required? Span.ofJson? symbolTable
      byteOrder := ← Json.required? ByteOrder.ofJson? byteOrder
      symbols := ← Json.required? (·.listOf? Symbol.ofJson?) symbols
      stringTable := ← Json.optional? Span.ofJson? stringTable
      names := ← Json.required? (·.listOf? Name.ofJson?) names
      loadAddress := ← Json.optional? Json.uint32? loadAddress
      loadSource := ← Json.optional? LoadSource.ofJson? loadSource }
  | _ => none

/-- The report that a text says. -/
def ofText (text : String) : Except Fault Report :=
  match (Json.parse? text).bind ofJson? with
  | some report => .ok report
  | none => .error (.serialization "not the text of a report")

/-! ## Summaries -/

/-- The ends of a span in hexadecimal. -/
def rangeText (s : Span) : String := Numeral.hex s.start ++ ".." ++ Numeral.hex s.stop

/-- The numbers of symbols of each class. -/
def classText (report : Report) : String :=
  ", ".intercalate
    (report.classCounts.map fun (kind, n) => toString n ++ " " ++ kind.label)

/-- The load address, and how it was found. -/
def loadText (report : Report) : String :=
  match report.loadAddress, report.loadSource with
  | some load, some source => Numeral.hex load.toNat ++ " (" ++ source.spelling ++ ")"
  | some load, none => Numeral.hex load.toNat
  | none, _ => "not found"

/-- What a report says to people, line by line. -/
def summaryLines (report : Report) : List String :=
  [ "VxWorks version:   " ++ report.release.text,
    "symbol table:      " ++ rangeText report.symbolTable
      ++ " (" ++ toString report.symbols.length ++ " records)",
    "symbol types:      " ++ report.classText,
    "endianness:        " ++ report.byteOrder.text,
    "string table:      " ++
      match report.stringTable with
      | some extent => rangeText extent ++ " (" ++ toString report.names.length ++ " names)"
      | none => "not found",
    "load address:      " ++ report.loadText ]

end Report

end FirmwareSymbols
