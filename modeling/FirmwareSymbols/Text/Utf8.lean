/-!
# Text as bytes

Text is stored in UTF-8. The names in an image need not be: whatever is
not UTF-8 is shown as one replacement character for each longest part
that could still have become a character.

## Main definitions

* `Utf8.encode`: the bytes of a text.
* `Utf8.parts`: bytes cut into characters and into parts that are none.
* `Utf8.decode?`, `Utf8.decodeLossy`: the text of some bytes, if every
  part is a character, or with the others replaced.

## Main results

* `Utf8.length_take?_lt`: each part takes at least one byte away.
-/

namespace FirmwareSymbols

namespace Utf8

/-- The bytes of a text. -/
def encode (text : String) : List UInt8 := text.toList.flatMap String.utf8EncodeChar

/-- Bytes that lie in a range, both ends included. -/
structure ByteRange where
  /-- The least byte of the range. -/
  low : UInt8
  /-- The greatest byte of the range. -/
  high : UInt8

/-- Whether a byte lies in a range. -/
def ByteRange.contains (range : ByteRange) (byte : UInt8) : Bool :=
  range.low ≤ byte && byte ≤ range.high

/-- What may follow the first byte of a character in general. -/
def continuation : ByteRange := ⟨0x80, 0xbf⟩

/-- How a character of more than one byte begins: the bits its first byte contributes, and the ranges
of the bytes that must follow. The ranges leave out forms that are longer than needed, surrogates, and
values beyond the last character. -/
def lead? (byte : UInt8) : Option (Nat × List ByteRange) :=
  let b := byte.toNat
  if b < 0xc2 then none
  else if b < 0xe0 then some (b - 0xc0, [continuation])
  else if b = 0xe0 then some (0, [⟨0xa0, 0xbf⟩, continuation])
  else if b = 0xed then some (b - 0xe0, [⟨0x80, 0x9f⟩, continuation])
  else if b < 0xf0 then some (b - 0xe0, [continuation, continuation])
  else if b = 0xf0 then some (0, [⟨0x90, 0xbf⟩, continuation, continuation])
  else if b < 0xf4 then some (b - 0xf0, [continuation, continuation, continuation])
  else if b = 0xf4 then some (b - 0xf0, [⟨0x80, 0x8f⟩, continuation, continuation])
  else none

/-- Adds the bits of the bytes that must follow, one byte for each range. The value is missing if some
byte is; either way the bytes that are left come along. -/
def follow (value : Nat) : List ByteRange → List UInt8 → Option Nat × List UInt8
  | [], bytes => (some value, bytes)
  | _ :: _, [] => (none, [])
  | range :: ranges, byte :: rest =>
    if range.contains byte then
      follow (value * 64 + (byte.toNat - 0x80)) ranges rest
    else
      (none, byte :: rest)

/-- The first part of some bytes, with the bytes behind it. The part is a character, or it is a longest
beginning of one that some other byte cuts off, or a byte that begins none. -/
def take? : List UInt8 → Option (Option Char × List UInt8)
  | [] => none
  | byte :: rest =>
    if byte < 0x80 then
      some (some (Char.ofNat byte.toNat), rest)
    else
      match lead? byte with
      | none => some (none, rest)
      | some (value, ranges) =>
        let (whole, left) := follow value ranges rest
        some (whole.map Char.ofNat, left)

theorem length_follow_le (value : Nat) (ranges : List ByteRange) (bytes : List UInt8) :
    (follow value ranges bytes).2.length ≤ bytes.length := by
  fun_induction follow value ranges bytes with
  | case1 => simp
  | case2 => simp
  | case3 value range ranges byte rest h ih => simpa using Nat.le_succ_of_le ih
  | case4 => simp

/-- Each part takes at least one byte away. -/
theorem length_take?_lt {bytes left : List UInt8} {part : Option Char}
    (h : take? bytes = some (part, left)) : left.length < bytes.length := by
  cases bytes with
  | nil => cases h
  | cons byte rest =>
    simp only [take?] at h
    split at h
    · cases h; simp
    · split at h
      · cases h; simp
      · rename_i value ranges _
        have := length_follow_le value ranges rest
        cases h
        simp only [List.length_cons]
        omega

/-- Cuts bytes into parts and puts them, the latest first, before the parts that were cut already. -/
def partsOnto (cut : List (Option Char)) (bytes : List UInt8) : List (Option Char) :=
  match _h : take? bytes with
  | none => cut
  | some (part, left) => partsOnto (part :: cut) left
termination_by bytes.length
decreasing_by exact length_take?_lt (by assumption)

/-- The parts of some bytes, in order: a character, or none where the bytes are not UTF-8. -/
def parts (bytes : List UInt8) : List (Option Char) := (partsOnto [] bytes).reverse

/-- What stands for a part that is no character. -/
def replacement : Char := '\uFFFD'

/-- The text of some bytes, with a replacement for each part that is no character. -/
def decodeLossy (bytes : List UInt8) : String :=
  String.ofList ((parts bytes).map (·.getD replacement))

/-- The text of some bytes, if all of them are UTF-8. -/
def decode? (bytes : List UInt8) : Option String :=
  let cut := parts bytes
  if cut.all Option.isSome then
    some (String.ofList (cut.map (·.getD replacement)))
  else
    none

end Utf8

end FirmwareSymbols
