import FirmwareSymbols.Json
import FirmwareSymbols.Text.Numeral

/-!
# Reading typed values

A `Json` says nothing about types. The readers of this module answer with
a value of the type that is wanted, or not at all.

A record is read from an object, in which members that the record does not
know are passed over and none that it knows may occur twice, or from a
list of its fields in their order.

## Main definitions

* `Json.nat?`, `Json.text?`, `Json.option?`, `Json.listOf?`, `Json.variant?`:
  readers of plain values.
* `Json.fields?`: the values of the fields of a record.
-/

namespace FirmwareSymbols

namespace Json

/-- A natural number below a bound, written with digits only. -/
def nat? (bound : Nat) : Json → Option Nat
  | number literal => (Numeral.decimal? literal).bind (Numeral.below? bound)
  | _ => none

/-- An 8-bit number. -/
def uint8? (value : Json) : Option UInt8 := (value.nat? UInt8.size).map UInt8.ofNat

/-- A 32-bit number. -/
def uint32? (value : Json) : Option UInt32 := (value.nat? UInt32.size).map UInt32.ofNat

/-- A 64-bit number. -/
def uint64? (value : Json) : Option UInt64 := (value.nat? UInt64.size).map UInt64.ofNat

/-- An offset or a length in a file, which is below `2 ^ 64`. -/
def offset? (value : Json) : Option Nat := value.nat? UInt64.size

/-- A truth value. -/
def bool? : Json → Option Bool
  | bool value => some value
  | _ => none

/-- A text. A string without text cannot be read. -/
def text? : Json → Option String
  | string text => text
  | _ => none

/-- A value that may be `null`. -/
def option? {α : Type} (read : Json → Option α) : Json → Option (Option α)
  | null => some none
  | value => (read value).map some

/-- A list of values. -/
def listOf? {α : Type} (read : Json → Option α) : Json → Option (List α)
  | list items => items.mapM read
  | _ => none

/-- One of some named values. The name is a string, or the only key of an object whose value is
`null`. -/
def variant? {α : Type} (variants : List (String × α)) : Json → Option α
  | string (some name) => variants.lookup name
  | object [(some name, null)] => variants.lookup name
  | _ => none

/-! ## Records -/

/-- Whether a record with the given fields can be read from the members of an object: every key has a
text, and no field occurs twice. -/
def membersOk (fields : List String) (members : List (Option String × Json)) : Bool :=
  members.all (·.1.isSome)
    && fields.all fun field => members.countP (·.1 == some field) ≤ 1

/-- The value of each field, where there is one. A list of the fields must be complete unless the record
allows it to end early; an object may leave out any field. -/
def fields? (fields : List String) (mayEndEarly : Bool) : Json → Option (List (Option Json))
  | object members =>
    if membersOk fields members then
      some (fields.map fun field => members.lookup (some field))
    else
      none
  | list items =>
    if items.length = fields.length ∨ (mayEndEarly ∧ items.length < fields.length) then
      some (items.map some ++ List.replicate (fields.length - items.length) none)
    else
      none
  | _ => none

/-- A field that must be there. -/
def required? {α : Type} (read : Json → Option α) (field : Option Json) : Option α :=
  field.bind read

/-- A field that is nothing if it is not there. -/
def optional? {α : Type} (read : Json → Option α) : Option Json → Option (Option α)
  | none => some none
  | some value => value.option? read

/-- A field that has a default if it is not there. -/
def defaulted? {α : Type} (default : α) (read : Json → Option α) : Option Json → Option α
  | none => some default
  | some value => read value

end Json

end FirmwareSymbols
