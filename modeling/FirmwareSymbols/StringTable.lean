import FirmwareSymbols.Image

/-!
# The string table

The names of the symbols are stored one behind the other, each followed
by a null and by the padding that aligns the next one. A `Name` is one
entry. Its length counts the padding, because that is what the distance
between two name addresses in the symbol table measures.

## Main definitions

* `Image.namesWithin`: the entries of a span of the image.

## Main results

* `Image.name?_progress`: each entry ends behind its first byte, so the
  walk over a span comes to its end.
-/

namespace FirmwareSymbols

/-- One entry of the string table. -/
structure Name where
  /-- Where the name begins in the image. -/
  address : Nat
  /-- The bytes of the name. -/
  bytes : List UInt8
  /-- Bytes from this name to the next one. -/
  length : Nat
deriving DecidableEq, Repr

namespace Name

/-- Bytes of the entry behind the name. -/
def padding (name : Name) : Nat := name.length - name.bytes.length

end Name

namespace Image

/-- The first text at or after an offset below a bound, or the bound if there is none. -/
def nextText (image : Image) (offset bound : Nat) : Nat :=
  (image.firstWithin image.isText offset bound).getD bound

/-- The first entry of `[offset, bound)` together with the place where the next one begins. The last
entry of a span has no successor to measure its length by: it ends with the span, or with its
terminator if that is the byte behind the span. -/
def name? (image : Image) (offset bound : Nat) : Option (Name × Nat) :=
  (image.stringWithin? offset bound).map fun s =>
    let next := image.nextText s.stop bound
    let stop := if next = bound ∧ image.get? bound = some 0 then bound + 1 else next
    (⟨s.start, image.slice s, stop - s.start⟩, next)

theorem le_nextText {image : Image} {offset bound : Nat} (h : offset ≤ bound) :
    offset ≤ image.nextText offset bound := by
  unfold nextText
  cases hf : image.firstWithin image.isText offset bound with
  | none => simpa using h
  | some o => exact (firstWithin_bounds hf).1

/-- Each entry ends behind its first byte. -/
theorem name?_progress {image : Image} {offset bound next : Nat} {name : Name}
    (h : image.name? offset bound = some (name, next)) : offset < next ∧ offset < bound := by
  obtain ⟨s, hs, heq⟩ := Option.map_eq_some_iff.1 h
  obtain ⟨hlo, hlt, hhi⟩ := stringWithin?_bounds hs
  obtain ⟨-, rfl⟩ := Prod.mk.inj heq
  have := @le_nextText image _ _ hhi
  omega

/-- The entries of `[offset, bound)`, behind those that have been read already, latest first. -/
def namesFrom (image : Image) (bound : Nat) (read : List Name) (offset : Nat) : List Name :=
  match _h : image.name? offset bound with
  | none => read.reverse
  | some (name, next) => image.namesFrom bound (name :: read) next
termination_by bound - offset
decreasing_by
  have := name?_progress (by assumption)
  omega

/-- The entries of a span of the image, as far as the image goes. -/
def namesWithin (image : Image) (table : Span) : List Name :=
  image.namesFrom (min table.stop image.size) [] table.start

end Image

end FirmwareSymbols
