import FirmwareSymbols.Image
import FirmwareSymbols.Release

/-!
# The stored form of a symbol record

A record begins with three words: one that is reserved and zero, the
address of the name and the address of the thing named. It ends with a
type signature. The signatures are compared as stored bytes, so whether
some bytes look like a record does not depend on the byte order.

## Main results

* `Release.accepts_iff`: what a window has to look like to be taken for
  a record.
* `Release.fits_of_recordAt`: a record lies wholly inside the image.
-/

namespace FirmwareSymbols

/-! ## Fields -/

/-- The bytes of the reserved word, and of an address that is missing. -/
def zeroWord : List UInt8 := [0, 0, 0, 0]

/-- The `count` bytes at a distance from the beginning of a window. -/
def field (window : List UInt8) (distance count : Nat) : List UInt8 :=
  (window.drop distance).take count

namespace Release

/-- The type codes that a record of the table may carry. -/
def typeCodes : Release → List UInt8
  | v5 => [0x05, 0x07, 0x09, 0x11]
  | v6 => [0x03, 0x05, 0x07, 0x09, 0x11]

/-- The stored form of a type signature: the code is the last byte but one, all else is zero. -/
def signature (release : Release) (code : UInt8) : List UInt8 :=
  List.replicate (release.signatureSize - 2) 0 ++ [code, 0]

/-- The type signatures that end a record. -/
def signatures (release : Release) : List (List UInt8) :=
  release.typeCodes.map release.signature

/-- Whether a record may name something at address zero. -/
def allowsZeroDest : Release → Bool
  | v5 => false
  | v6 => true

/-- Whether the bytes of a window look like one record: the window has the size of a record, the
reserved word is zero, the name has an address, the thing named has one unless the release does
without, and the signature is known. -/
def accepts (release : Release) (window : List UInt8) : Bool :=
  window.length == release.recordSize
    && field window 0 4 == zeroWord
    && field window 4 4 != zeroWord
    && (release.allowsZeroDest || field window 8 4 != zeroWord)
    && release.signatures.contains (window.drop (release.recordSize - release.signatureSize))

/-- Whether a record begins at an offset of the image. -/
def recordAt (release : Release) (image : Image) (offset : Nat) : Bool :=
  release.accepts (image.window offset release.recordSize)

theorem accepts_iff {release : Release} {window : List UInt8} :
    release.accepts window = true ↔
      window.length = release.recordSize ∧ field window 0 4 = zeroWord ∧
      field window 4 4 ≠ zeroWord ∧
      (release.allowsZeroDest = true ∨ field window 8 4 ≠ zeroWord) ∧
      window.drop (release.recordSize - release.signatureSize) ∈ release.signatures := by
  simp [accepts, and_assoc]

/-- A record lies wholly inside the image. -/
theorem fits_of_recordAt {release : Release} {image : Image} {offset : Nat}
    (h : release.recordAt image offset = true) :
    offset + release.recordSize ≤ image.size := by
  have full := (accepts_iff.1 h).1
  have pos := release.recordSize_pos
  have whole : image.toList.length = image.size := rfl
  rw [Image.window_eq, List.length_take, List.length_drop] at full
  omega

end Release

end FirmwareSymbols
