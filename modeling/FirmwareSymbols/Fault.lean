/-!
# Faults

A search that finds nothing is no fault: it answers `none`. A `Fault` is
the reason why an operation could give no answer at all.
-/

namespace FirmwareSymbols

/-- Why an operation could give no answer. -/
inductive Fault where
  /-- The input cannot be analysed. -/
  | malformed (reason : String)
  /-- A setting has a value that no search can work with. -/
  | invalidConfig (reason : String)
  /-- The budget of a search ran out before the search was over. -/
  | searchExhausted (operation : String) (iterations elapsedMillis : Nat)
  /-- A firmware file is larger than the limit. -/
  | fileTooLarge (limit found : Nat)
  /-- A file could not be read. -/
  | unreadable (reason : String)
  /-- A text is not the written form of the value that was wanted. -/
  | serialization (detail : String)
  /-- The host refused a call. -/
  | host (reason : String)
deriving DecidableEq, Repr

namespace Fault

/-- The message that a fault is reported with. -/
def message : Fault → String
  | malformed reason => "Malformed input: " ++ reason
  | invalidConfig reason => "Invalid configuration: " ++ reason
  | searchExhausted operation iterations elapsed =>
    "Search exhausted in " ++ operation ++ " after " ++ toString iterations ++ " iterations ("
      ++ toString elapsed ++ "ms)"
  | fileTooLarge limit found =>
    "File size of " ++ toString found ++ " bytes exceeds the maximum allowed size of "
      ++ toString limit ++ " bytes"
  | unreadable reason => "I/O error: " ++ reason
  | serialization detail => "Serialization error: " ++ detail
  | host reason => "Host error: " ++ reason

/-- An image of `size` bytes has no room for one record of `record` bytes. -/
def shortImage (size record : Nat) : Fault :=
  malformed ("image is " ++ toString size ++ " bytes, shorter than one " ++ toString record
    ++ "-byte record")

/-- Symbols cannot be placed at addresses while the address of the image is unknown. -/
def noLoadAddress : Fault := malformed "cannot apply symbols without a load address"

end Fault

end FirmwareSymbols
