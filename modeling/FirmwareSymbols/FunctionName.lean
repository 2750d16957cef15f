/-!
# Function names

The strings of an image are bytes without an encoding. A string counts as
the name of a function if it could be the name of a C function: short
enough, printable, and free of the characters that occur only in
messages, paths and decorated forms.

## Main results

* `isFunctionName_iff`: what a function name is, byte by byte.
* `not_mem_of_isFunctionName`: a function name holds no null.
-/

namespace FirmwareSymbols

/-- Whether a byte is printable ASCII, from the space to the tilde. -/
def isPrintable (byte : UInt8) : Bool := 32 ≤ byte && byte ≤ 126

/-- The printable characters that no function name has: backslash, percent sign, plus sign, comma,
ampersand and slash. -/
def foreignBytes : List UInt8 := [0x5c, 0x25, 0x2b, 0x2c, 0x26, 0x2f]

/-- Whether a byte may occur in a function name. -/
def isNameByte (byte : UInt8) : Bool := isPrintable byte && !foreignBytes.contains byte

/-- Whether some bytes may be the name of a function: there are some, at most `maxLength`, and each may
occur in a name. -/
def isFunctionName (maxLength : Nat) (name : List UInt8) : Bool :=
  !name.isEmpty && decide (name.length ≤ maxLength) && name.all isNameByte

theorem isFunctionName_iff {maxLength : Nat} {name : List UInt8} :
    isFunctionName maxLength name = true ↔
      name ≠ [] ∧ name.length ≤ maxLength ∧ ∀ byte ∈ name, isNameByte byte = true := by
  simp [isFunctionName, and_assoc]

/-- A function name holds no null. -/
theorem not_mem_of_isFunctionName {maxLength : Nat} {name : List UInt8}
    (h : isFunctionName maxLength name = true) : (0 : UInt8) ∉ name := by
  intro mem
  have := (isFunctionName_iff.1 h).2.2 0 mem
  revert this
  decide

end FirmwareSymbols
