/-!
# Release lines and their record layout

The layout of a symbol record changed once, between the 5.x and the 6.x
line of the operating system. A `Release` names the line; everything that
depends on the layout is a function of it.
-/

namespace FirmwareSymbols

/-- A release line of VxWorks. -/
inductive Release where
  /-- VxWorks 5.x: records of 16 bytes that end in a type word. -/
  | v5
  /-- VxWorks 6.x: records of 20 bytes that end in a type double word. -/
  | v6
deriving DecidableEq, Repr, Inhabited

namespace Release

/-- The major version number of the line. -/
def major : Release → Nat
  | v5 => 5
  | v6 => 6

/-- The line with a major version number. -/
def ofMajor? : Nat → Option Release
  | 5 => some v5
  | 6 => some v6
  | _ => none

/-- How the line is written in prose. -/
def text (release : Release) : String :=
  "VxWorks " ++ toString release.major ++ ".x"

/-- Bytes per symbol record. -/
def recordSize : Release → Nat
  | v5 => 16
  | v6 => 20

/-- Bytes of the type signature that ends a record. -/
def signatureSize : Release → Nat
  | v5 => 4
  | v6 => 8

/-- Every record is longer than its signature and the three words before it. -/
theorem signatureSize_add_twelve_le (release : Release) :
    release.signatureSize + 12 ≤ release.recordSize := by
  cases release <;> decide

theorem recordSize_pos (release : Release) : 0 < release.recordSize := by
  cases release <;> decide

end Release

end FirmwareSymbols
