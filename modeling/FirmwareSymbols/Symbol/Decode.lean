import FirmwareSymbols.Image
import FirmwareSymbols.Release
import FirmwareSymbols.Symbol

/-!
# Decoding the symbol table

The table holds no lengths. Once the records are sorted by the address of
their names, the length of a name is the distance to the next name: it
counts the name, its terminator and the padding behind it.

## Main definitions

* `Release.decode?`: the record at an offset.
* `Symbol.withLengths`: the lengths of the names of a sorted list.
* `Release.decodeTable`: all records of a span, sorted and measured.

## Main results

* `Symbol.length_withLengths`: measuring neither adds nor drops a symbol.
-/

namespace FirmwareSymbols

namespace Release

/-- The record at an offset, if the image has all of its fields. The length of its name is not known
yet. -/
def decode? (release : Release) (image : Image) (order : ByteOrder) (offset : Nat) :
    Option Symbol := do
  let nameAddress ← image.word? order (offset + 4)
  let destAddress ← image.word? order (offset + 8)
  let flags ← image.word? order (offset + release.recordSize - 4)
  let typeCode ← image.get? (offset + release.recordSize - 2)
  return { offset, nameAddress, destAddress, nameLength := none, flags, typeCode }

end Release

namespace Symbol

/-- Sets the length of each name but the last to its distance from the next name. -/
def withLengths : List Symbol → List Symbol
  | s :: next :: rest =>
    { s with nameLength := some (next.nameAddress - s.nameAddress) } :: withLengths (next :: rest)
  | short => short

/-- Sorts symbols by the address of their names and keeps the order of equal addresses. -/
def sortByName (symbols : List Symbol) : List Symbol :=
  symbols.mergeSort fun a b => a.nameAddress ≤ b.nameAddress

/-- Sorts symbols by the place of their records and keeps the order of equal places. -/
def sortByOffset (symbols : List Symbol) : List Symbol :=
  symbols.mergeSort fun a b => a.offset ≤ b.offset

/-- Measuring neither adds nor drops a symbol. -/
theorem length_withLengths (symbols : List Symbol) :
    (withLengths symbols).length = symbols.length := by
  fun_induction withLengths symbols with
  | case1 s next rest ih => simp [ih]
  | case2 => rfl

end Symbol

namespace Release

/-- The records of a span, sorted by the address of their names, each but the last with the length of
its name. Slots that the image ends in the middle of are left out. -/
def decodeTable (release : Release) (image : Image) (order : ByteOrder) (table : Span) :
    List Symbol :=
  Symbol.withLengths
    (Symbol.sortByName
      ((table.slots release.recordSize).filterMap (release.decode? image order)))

end Release

end FirmwareSymbols
