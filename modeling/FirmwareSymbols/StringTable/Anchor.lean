import FirmwareSymbols.Image
import FirmwareSymbols.Text.Utf8

/-!
# Anchors

Some functions are linked into nearly every image. Where the name of one
of them stands between two nulls, the string table is taken to be around
it: the name is an `Anchor` from which the table can be grown.

## Main results

* `Image.holds_iff`: what it means that some bytes stand at an offset.
* `Image.find?_eq_some_iff`: the least offset at which some bytes stand.
-/

namespace FirmwareSymbols

/-- Where a well-known name stands in the image. -/
structure Anchor where
  /-- Offset of the first byte of the name. -/
  offset : Nat
  /-- The name. -/
  name : String
deriving DecidableEq, Repr

namespace Image

/-- Whether some bytes stand at an offset. -/
def holds (image : Image) : List UInt8 → Nat → Bool
  | [], _ => true
  | byte :: rest, offset => image.get? offset == some byte && image.holds rest (offset + 1)

/-- The least offset at which some bytes stand. This is the contract that is assumed of a `memmem` search: it
gives the first occurrence, also where occurrences overlap, and none only if there is none. -/
def find? (image : Image) (bytes : List UInt8) : Option Nat :=
  leastFrom (image.holds bytes) 0 image.size

theorem holds_iff {image : Image} {bytes : List UInt8} {offset : Nat} :
    image.holds bytes offset = true ↔
      ∀ k, k < bytes.length → image.get? (offset + k) = bytes[k]? := by
  induction bytes generalizing offset with
  | nil => simp [holds]
  | cons byte rest ih =>
    simp only [holds, Bool.and_eq_true, beq_iff_eq, ih]
    constructor
    · rintro ⟨first, others⟩ k hk
      cases k with
      | zero => simpa using first
      | succ k =>
        have := others k (by simpa using hk)
        rwa [Nat.add_assoc, Nat.add_comm 1] at this
    · intro all
      refine ⟨by simpa using all 0 (by simp), fun k hk => ?_⟩
      have := all (k + 1) (by simpa using hk)
      rwa [Nat.add_assoc, Nat.add_comm 1]

theorem find?_eq_some_iff {image : Image} {bytes : List UInt8} {offset : Nat} :
    image.find? bytes = some offset ↔
      offset < image.size ∧ image.holds bytes offset = true ∧
        ∀ k, k < offset → image.holds bytes k = false := by
  simp [find?, leastFrom_eq_some_iff]

/-- The first of some names that stands in the image between two nulls, at its first such place. Empty
names are passed over. -/
def anchor? (image : Image) : List String → Option Anchor
  | [] => none
  | name :: rest =>
    if name = "" then image.anchor? rest
    else
      match image.find? (0 :: (Utf8.encode name ++ [0])) with
      | some offset => some ⟨offset + 1, name⟩
      | none => image.anchor? rest

end Image

end FirmwareSymbols
