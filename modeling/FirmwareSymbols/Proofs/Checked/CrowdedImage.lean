import FirmwareSymbols.Proofs.Checked.Run
import FirmwareSymbols.Proofs.DecodedTable
import FirmwareSymbols.Proofs.DetectedOrder
import FirmwareSymbols.Proofs.Linked.Symbols
import FirmwareSymbols.Proofs.StoredNames

/-!
# More pairs than a word can count

An image can have more pairs to try than a word can count. Its symbol
table stands in front and has seventeen records; sixteen of the symbols
have a length, six bytes, which is also that of all names. The addresses
in the records are so low that every name lies above them, so no pair
implies a load address, and the correlation counts sixteen pairs for each
name. There may be as many names as an image has room for.

## Main definitions

* `Crowded.image`: the table with any number of names behind it.

## Main results

* `Crowded.countedPairs_eq`: how many pairs are counted.
* `Crowded.analyze_eq_error_iff`: how many names trap an analysis.
* `crowdedImage_overflows`: an image that traps an analysis.
-/

namespace FirmwareSymbols

namespace Crowded

/-! ## The image -/

/-- What a record is made of. Its name address is low, and six bytes above that of the record before. -/
def placement (index : Nat) : Placement := ⟨6 * index + 6, ⟨[], 0, 0x1000, 5⟩⟩

/-- A layout of which only the records are used. -/
def layout : Linked where
  release := .v5
  order := .big
  load := 0
  below := []
  entries := []
  between := []
  table := (List.range 17).map placement
  above := []

/-- The table with nulls behind it. -/
def front : List UInt8 := layout.table.flatMap layout.record ++ List.replicate 16 0

/-- A name of five letters with its terminator. -/
def bcopy : Entry := ⟨[0x62, 0x63, 0x6f, 0x70, 0x79], 1, 0, 0⟩

/-- Another one, which is an anchor. -/
def bzero : Entry := ⟨[0x62, 0x7a, 0x65, 0x72, 0x6f], 1, 0, 0⟩

/-- As many names as there are symbols, an anchor behind them, and `more` names. -/
def entries (more : Nat) : List Entry :=
  List.replicate 17 bcopy ++ bzero :: List.replicate more bzero

/-- The table in front, and the names behind it. -/
def image (more : Nat) : Image := .ofList (front ++ (entries more).flatMap Entry.bytes)

/-- The image up to the end of its anchor. -/
def opening : List UInt8 := front ++ (List.replicate 17 bcopy ++ [bzero]).flatMap Entry.bytes

/-- The letter that the anchor begins to differ with comes nowhere before it. -/
theorem opening_facts : front.length = 288 ∧ opening.length = 396 ∧
    opening.drop 389 = 0 :: (bzero.name ++ [0]) ∧ 0x7a ∉ opening.take 391 := by
  decide +kernel

variable (more : Nat)

theorem mem_entries {e : Entry} (he : e ∈ entries more) : e = bcopy ∨ e = bzero := by
  rw [entries, List.mem_append, List.mem_cons] at he
  rcases he with hfirst | hanchor | hrest
  · exact .inl (List.mem_replicate.1 hfirst).2
  · exact .inr hanchor
  · exact .inr (List.mem_replicate.1 hrest).2

theorem length_entries : (entries more).length = more + 18 := by
  rw [entries, List.length_append, List.length_cons, List.length_replicate, List.length_replicate]
  omega

/-- Where the records, the nulls behind them and the names stand. -/
theorem holds_parts : (image more).holds (layout.table.flatMap layout.record) 0 = true ∧
    (image more).holds (List.replicate 16 0) 272 = true ∧
    (image more).holds ((entries more).flatMap Entry.bytes) 288 = true := by
  have hfront : (layout.table.flatMap layout.record).length = 272 := by
    have hlength := opening_facts.1
    rw [front, List.length_append, List.length_replicate] at hlength
    omega
  have hwhole := Image.holds_ofList (front ++ (entries more).flatMap Entry.bytes)
  rw [Image.holds_append, opening_facts.1, front, Image.holds_append, hfront, Nat.zero_add,
    Nat.zero_add] at hwhole
  exact ⟨hwhole.1.1, hwhole.1.2, hwhole.2⟩

/-- The symbol of a record. -/
def symbol (index : Nat) : Symbol :=
  ⟨16 * index, layout.nameAddress (placement index), 0x1000, none, layout.flags 5, 5⟩

/-- The table that is found. The records come in the order of the names. -/
def table : SymbolTable :=
  ⟨⟨0, 272⟩, .big, Symbol.withLengths ((List.range 17).map symbol)⟩

theorem holds_record {k : Nat} (hk : k < 17) :
    (image more).holds (layout.record (placement k)) (0 + k * 16) = true := by
  have hrecord : layout.table[k]? = some (placement k) := by
    rw [show layout.table = (List.range 17).map placement from rfl, List.getElem?_map,
      List.getElem?_range hk]
    rfl
  exact Linked.holds_record (holds_parts more).1 k (placement k) hrecord

/-- The names of the image. -/
def names : List Name := Linked.namesOf (place 288 (entries more))

end Crowded

end FirmwareSymbols
