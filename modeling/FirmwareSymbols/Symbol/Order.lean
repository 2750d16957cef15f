import FirmwareSymbols.Image
import FirmwareSymbols.Release
import FirmwareSymbols.Symbol.Table

/-!
# Telling the byte order from a table

Names of neighbouring symbols mostly lie in the same 64 KiB of memory, so
the more significant half of their addresses repeats from record to
record. Where the repeated half is stored tells the byte order.
-/

namespace FirmwareSymbols

namespace Release

/-- Two bytes at a distance from the beginning of the `index`-th record behind an offset, if the image
has them. -/
def half? (release : Release) (image : Image) (offset index distance : Nat) :
    Option (List UInt8) :=
  let start := offset + index * release.recordSize + distance
  if start + 2 ≤ image.size then some (image.window start 2) else none

/-- The byte order of the table that begins at an offset. It is big endian if the first halves of the
first two name addresses are equal. Otherwise it is taken for little endian, be it that the second
halves are equal, that neither are, or that there are no two records to compare. -/
def detectOrder (release : Release) (image : Image) (offset : Nat) : ByteOrder :=
  match release.half? image offset 0 firstHalf, release.half? image offset 1 firstHalf,
    release.half? image offset 0 secondHalf, release.half? image offset 1 secondHalf with
  | some first, some next, some _, some _ => if first = next then .big else .little
  | _, _, _, _ => .little

end Release

end FirmwareSymbols
