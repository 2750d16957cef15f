import FirmwareSymbols.FunctionName
import FirmwareSymbols.Image
import FirmwareSymbols.Symbol

/-!
# Probing load addresses

Some load addresses have been seen so often that they are worth a try. If
the image was loaded at a candidate address, the names of the symbols lie
in the image where their addresses say; a probe looks at the first byte of
each of the first few names.

## Main results

* `Image.passesProbe_iff`: what it means that a candidate passes.
-/

namespace FirmwareSymbols

namespace Symbol

/-- Where the name of a symbol lies in an image that is loaded at an address, unless it lies below. -/
def nameOffset? (s : Symbol) (load : UInt32) : Option Nat :=
  if load ≤ s.nameAddress then some (s.nameAddress.toNat - load.toNat) else none

end Symbol

namespace Image

/-- Whether the first byte of a symbol's name is printable if the image is loaded at an address. -/
def showsName (image : Image) (load : UInt32) (s : Symbol) : Bool :=
  ((s.nameOffset? load).bind image.get?).any isPrintable

/-- Whether each of the first `count` symbols has a printable name if the image is loaded at a
candidate address. No candidate passes if there are no symbols. -/
def passesProbe (image : Image) (symbols : List Symbol) (count : Nat) (candidate : UInt32) : Bool :=
  !symbols.isEmpty && (symbols.take count).all (image.showsName candidate)

/-- The first candidate that passes. -/
def probe (image : Image) (symbols : List Symbol) (count : Nat) (candidates : List UInt32) :
    Option UInt32 :=
  candidates.find? (image.passesProbe symbols count)

theorem passesProbe_iff {image : Image} {symbols : List Symbol} {count : Nat} {load : UInt32} :
    image.passesProbe symbols count load = true ↔
      symbols ≠ [] ∧ ∀ s ∈ symbols.take count, image.showsName load s = true := by
  simp [passesProbe]

end Image

end FirmwareSymbols
