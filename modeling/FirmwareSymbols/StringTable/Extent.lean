import FirmwareSymbols.FunctionName
import FirmwareSymbols.Image

/-!
# The extent of the string table

The string table is grown outward from an anchor: backward from the name
before it, then forward from the anchor itself. A name belongs to the
table if it could be the name of a function and if only a few nulls lie
between it and the name that was taken before it. What does not belong
stops the growth in that direction.

A direction may stop only after enough names have been taken, counting
those of both directions; where it runs into the end of the image instead,
only the final count matters.

## Main definitions

* `TableLimits`: what belongs to a table, and how many names make one.
* `TableLimits.growBack`, `TableLimits.growForward`: the two walks.
* `TableLimits.locate`: the table around an anchor.
-/

namespace FirmwareSymbols

/-- What belongs to a string table, and how many names make one. -/
structure TableLimits where
  /-- Names that must have been taken before a direction may stop. -/
  required : Nat
  /-- Bytes of the longest name. -/
  maxNameLength : Nat
  /-- Nulls that may separate two neighbouring names. -/
  maxGap : Nat
deriving DecidableEq, Repr

/-- What came of growing a table in one direction. -/
structure Growth where
  /-- The names that were taken, the latest one first. -/
  names : List Span
  /-- Whether the growth was stopped by something that does not belong to the table. -/
  stopped : Bool
deriving DecidableEq, Repr

/-- A string table that was located. -/
structure LocatedTable where
  /-- From the beginning of the first name to the end of the last one. -/
  extent : Span
  /-- The names, in the order of their addresses. -/
  names : List Span
deriving DecidableEq, Repr

namespace TableLimits

/-- Whether the bytes of a span could be the name of a function. -/
def isName (limits : TableLimits) (image : Image) (s : Span) : Bool :=
  isFunctionName limits.maxNameLength (image.slice s)

/-- Whether at most the permitted number of bytes lies between two spans, the earlier one first. -/
def isNear (limits : TableLimits) (earlier later : Span) : Bool :=
  later.start - earlier.stop ≤ limits.maxGap

/-- Takes the names below a bound one by one, the nearest first, as long as they belong to the table.
The names taken so far come with the lowest one first. -/
def growBack (limits : TableLimits) (image : Image) (taken : List Span) (bound : Nat) : Growth :=
  match _h : image.stringBefore? bound with
  | none => ⟨taken, false⟩
  | some s =>
    if taken.head?.all (limits.isNear s) && limits.isName image s then
      limits.growBack image (s :: taken) s.start
    else
      ⟨taken, true⟩
termination_by bound
decreasing_by exact Image.stringBefore?_start_lt (by assumption)

/-- Takes the names from an offset on one by one, the nearest first, as long as they belong to the
table. The names taken so far come with the highest one first. -/
def growForward (limits : TableLimits) (image : Image) (taken : List Span) (offset : Nat) : Growth :=
  match _h : image.stringFrom? offset with
  | none => ⟨taken, false⟩
  | some s =>
    if taken.head?.all (limits.isNear · s) && limits.isName image s then
      limits.growForward image (s :: taken) s.stop
    else
      ⟨taken, true⟩
termination_by image.size - offset
decreasing_by
  have := Image.stringFrom?_bounds (by assumption)
  omega

/-- The table around the name that begins at an anchor. -/
def locate (limits : TableLimits) (image : Image) (anchor : Nat) : Option LocatedTable :=
  let back := limits.growBack image [] anchor
  if back.stopped && decide (back.names.length < limits.required) then
    none
  else
    let forward := limits.growForward image [] anchor
    let names := back.names ++ forward.names.reverse
    if names.length < limits.required then
      none
    else
      match names.head?, names.getLast? with
      | some first, some last => some ⟨⟨first.start, last.stop⟩, names⟩
      | _, _ => none

end TableLimits

end FirmwareSymbols
