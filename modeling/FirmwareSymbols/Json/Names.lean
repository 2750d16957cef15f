import FirmwareSymbols.Json.Read
import FirmwareSymbols.Release
import FirmwareSymbols.Word

/-!
# Release lines and byte orders in JSON

Settings and reports both name a release line and a byte order. Each has
one spelling, which is written and read alike.

## Main results

* `Release.lookup_spellings`, `ByteOrder.lookup_spellings`: the spelling
  of a value is read as that value.
-/

namespace FirmwareSymbols

namespace Release

/-- The spelling of a release line. -/
def spelling : Release → String
  | v5 => "V5"
  | v6 => "V6"

/-- All release lines by their spelling. -/
def spellings : List (String × Release) := [(v5.spelling, v5), (v6.spelling, v6)]

/-- The written form of a release line. -/
def toJson (release : Release) : Json := .ofString release.spelling

/-- The release line that is written in a value. -/
def ofJson? : Json → Option Release := Json.variant? spellings

theorem lookup_spellings (release : Release) : spellings.lookup release.spelling = some release := by
  cases release <;> decide

end Release

namespace ByteOrder

/-- The spelling of a byte order. -/
def spelling : ByteOrder → String
  | little => "Little"
  | big => "Big"

/-- Both byte orders by their spelling. -/
def spellings : List (String × ByteOrder) := [(little.spelling, little), (big.spelling, big)]

/-- The written form of a byte order. -/
def toJson (order : ByteOrder) : Json := .ofString order.spelling

/-- The byte order that is written in a value. -/
def ofJson? : Json → Option ByteOrder := Json.variant? spellings

theorem lookup_spellings (order : ByteOrder) : spellings.lookup order.spelling = some order := by
  cases order <;> decide

end ByteOrder

end FirmwareSymbols
