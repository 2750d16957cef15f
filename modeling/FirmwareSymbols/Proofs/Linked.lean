import FirmwareSymbols.FunctionName
import FirmwareSymbols.Proofs.NullFreeRun
import FirmwareSymbols.Report
import FirmwareSymbols.StringTable.Anchor
import FirmwareSymbols.Symbol.Order
import FirmwareSymbols.Symbol.Table

/-!
# Linked images

A linker lays the names of an image out one behind the other and writes,
elsewhere, one record for each of them. `Linked` is such a layout,
`Linked.image` the image that comes of it, and `Linked.report` what an
analysis ought to recover: nothing of it is computed from the bytes.

## Main definitions

* `Linked.Lawful`: the names, paddings and records are well-formed.
* `Linked.Apparent`: nothing else in the image is in the way of the
  searches.

## Main results

* `Image.holds_append`, `Image.window_of_holds`: blocks of an image.
* `Linked.holds_parts`: where the two tables stand.
-/

namespace FirmwareSymbols

/-! ## Layouts -/

/-- A name with the padding behind it, and what its record says of the thing named. -/
structure Entry where
  name : List UInt8
  padding : Nat
  destAddress : UInt32
  typeCode : UInt8
deriving DecidableEq, Repr

namespace Entry

/-- The stored form of a name. -/
def bytes (entry : Entry) : List UInt8 := entry.name ++ List.replicate entry.padding 0

/-- Bytes from a name to the next one. -/
def size (entry : Entry) : Nat := entry.name.length + entry.padding

theorem length_bytes (entry : Entry) : entry.bytes.length = entry.size := by
  rw [bytes, size, List.length_append, List.length_replicate]

end Entry

/-- An entry whose name has a place in the image. -/
structure Placement where
  offset : Nat
  entry : Entry
deriving DecidableEq, Repr

/-- The name without its padding. -/
def Placement.span (p : Placement) : Span := ⟨p.offset, p.offset + p.entry.name.length⟩

/-- Places entries one behind the other. -/
def place (offset : Nat) : List Entry → List Placement
  | [] => []
  | entry :: rest => ⟨offset, entry⟩ :: place (offset + entry.size) rest

/-- The parts of a linked image, from its beginning to its end. The records may come in any order. -/
structure Linked where
  release : Release
  order : ByteOrder
  load : UInt32
  below : List UInt8
  entries : List Entry
  between : List UInt8
  table : List Placement
  above : List UInt8
deriving Repr

namespace Linked

/-- The entries with the places of their names. -/
def placed (fw : Linked) : List Placement := place fw.below.length fw.entries

/-- The stored form of all names. -/
def strings (fw : Linked) : List UInt8 := fw.entries.flatMap Entry.bytes

/-- The address at which a name is loaded. -/
def nameAddress (fw : Linked) (p : Placement) : UInt32 := .ofNat (fw.load.toNat + p.offset)

/-- The record of an entry. -/
def record (fw : Linked) (p : Placement) : List UInt8 :=
  zeroWord ++ (fw.order.bytes (fw.nameAddress p) ++
    (fw.order.bytes p.entry.destAddress ++ fw.release.signature p.entry.typeCode))

/-- The image that is laid out. -/
def image (fw : Linked) : Image :=
  .ofList (fw.below ++ (fw.strings ++ (fw.between ++ (fw.table.flatMap fw.record ++ fw.above))))

/-- Where the padding behind the last name ends. -/
def stringsStop (fw : Linked) : Nat := fw.below.length + fw.strings.length

/-- Where the records are. -/
def tableExtent (fw : Linked) : Span :=
  let start := fw.stringsStop + fw.between.length
  ⟨start, start + fw.table.length * fw.release.recordSize⟩

/-! ## What there is to recover -/

/-- The flag word of a record with a type code. -/
def flags (fw : Linked) (code : UInt8) : UInt32 :=
  match fw.order with
  | .little => ByteOrder.wordOf 0 code 0 0
  | .big => ByteOrder.wordOf 0 0 code 0

/-- The symbol of an entry. -/
def symbol (fw : Linked) (p : Placement) (nameLength : Option UInt32) : Symbol where
  offset := fw.tableExtent.start + fw.table.idxOf p * fw.release.recordSize
  nameAddress := fw.nameAddress p
  destAddress := p.entry.destAddress
  nameLength := nameLength
  flags := fw.flags p.entry.typeCode
  typeCode := p.entry.typeCode

/-- The symbols of entries in the order of their names. The last one has no length. -/
def symbolsOf (fw : Linked) : List Placement → List Symbol
  | [] => []
  | [p] => [fw.symbol p none]
  | p :: q :: rest => fw.symbol p (some (.ofNat p.entry.size)) :: fw.symbolsOf (q :: rest)

/-- The string records of entries. The last one ends with its terminator. -/
def namesOf : List Placement → List Name
  | [] => []
  | [p] => [⟨p.offset, p.entry.name, p.entry.name.length + 1⟩]
  | p :: q :: rest => ⟨p.offset, p.entry.name, p.entry.size⟩ :: namesOf (q :: rest)

/-- Where the last name ends. -/
def namesStop (fw : Linked) : Nat :=
  (fw.placed.getLast?.map fun p => p.span.stop).getD fw.below.length

/-- The report that recovers the whole layout. -/
def report (fw : Linked) : Report where
  release := fw.release
  symbolTable := fw.tableExtent
  byteOrder := fw.order
  symbols := fw.symbolsOf fw.placed
  stringTable := some ⟨fw.below.length, fw.namesStop⟩
  names := namesOf fw.placed
  loadAddress := some fw.load
  loadSource := some .correlated

/-! ## What the layout has to be like -/

/-- The names could be names of functions, the padding is not too long, and there is one well-formed
record for each name. -/
structure Lawful (fw : Linked) (config : Config) : Prop where
  release_eq : config.release = fw.release
  two_le : 2 ≤ fw.entries.length
  minRun_le : config.minTableRun.toNat ≤ fw.entries.length
  opens : fw.below = [] ∨ fw.below.getLast? = some 0
  isName : ∀ e ∈ fw.entries, isFunctionName config.maxNameLength.toNat e.name = true
  padded : ∀ e ∈ fw.entries, 1 ≤ e.padding ∧ e.padding ≤ config.maxStringGap.toNat
  arranged : fw.table.Perm fw.placed
  typed : ∀ e ∈ fw.entries, e.typeCode ∈ fw.release.typeCodes
  defined : ∀ e ∈ fw.entries, fw.release.allowsZeroDest = true ∨ e.destAddress ≠ 0
  addressed : ∀ p ∈ fw.placed,
    0 < fw.load.toNat + p.offset ∧ fw.load.toNat + p.offset < UInt32.size

/-- A run of the image that a walk over the string table does not take across a gap. -/
def Foreign (fw : Linked) (config : Config) (gap : Nat) (s : Span) : Prop :=
  config.maxStringGap.toNat < gap ∨
    isFunctionName config.maxNameLength.toNat (fw.image.slice s) = false

/-- Below the names there is nothing but nulls; or else the last run there is foreign, and as many
names as have to agree come before the anchor, which is the name with index `a`. -/
def ClosedBelow (fw : Linked) (config : Config) (a : Nat) : Prop :=
  (∀ byte ∈ fw.below, byte = 0) ∨
    config.requiredCount fw.entries.length ≤ a ∧
      ∀ s, fw.image.IsRun s → s.stop ≤ fw.below.length → fw.image.Clear s.stop fw.below.length →
        fw.Foreign config (fw.below.length - s.stop) s

/-- The first run behind the names, if there is one, is foreign. -/
def ClosedAbove (fw : Linked) (config : Config) : Prop :=
  ∀ s, fw.image.IsRun s → fw.stringsStop ≤ s.start → fw.image.Clear fw.stringsStop s.start →
    fw.Foreign config (s.start - fw.namesStop) s

/-- The table is the first one that the scan accepts and ends with its last record, the byte order
is known or can be told, the anchor is a name of the layout, and the strings around the layout are
not taken for a part of it. -/
structure Apparent (fw : Linked) (config : Config) : Prop where
  starts : fw.release.startsRun fw.image config.minTableRun.toNat fw.tableExtent.start = true
  least : ∀ offset, offset < fw.tableExtent.start →
    fw.release.startsRun fw.image config.minTableRun.toNat offset = false
  ends : fw.release.recordAt fw.image fw.tableExtent.stop = false
  order : config.byteOrder = some fw.order ∨
    config.byteOrder = none ∧
      fw.release.detectOrder fw.image fw.tableExtent.start = fw.order
  anchored : ∃ a p anchor, fw.placed[a]? = some p ∧
    fw.image.anchor? config.anchorNames = some anchor ∧ anchor.offset = p.offset ∧
    fw.ClosedBelow config a
  closedAbove : fw.ClosedAbove config

end Linked

/-! ## Blocks of an image -/

namespace Image

variable {image : Image}

theorem holds_append {left right : List UInt8} {offset : Nat} :
    image.holds (left ++ right) offset = true ↔
      image.holds left offset = true ∧ image.holds right (offset + left.length) = true := by
  induction left generalizing offset with
  | nil => simp [holds]
  | cons byte rest ih =>
      rw [List.cons_append, holds, holds, Bool.and_eq_true, Bool.and_eq_true, ih,
        List.length_cons, and_assoc, Nat.add_assoc, Nat.add_comm 1]

theorem holds_ofList (bytes : List UInt8) : (ofList bytes).holds bytes 0 = true := by
  rw [holds_iff]
  intro k _
  rw [Nat.zero_add]
  exact List.getElem?_toArray

theorem get?_of_holds {bytes : List UInt8} {offset k : Nat} (h : image.holds bytes offset = true)
    (hk : k < bytes.length) : image.get? (offset + k) = bytes[k]? :=
  holds_iff.1 h k hk

/-- A block can be read back. -/
theorem window_of_holds {bytes : List UInt8} {offset : Nat}
    (h : image.holds bytes offset = true) : image.window offset bytes.length = bytes := by
  refine List.ext_getElem? fun k => ?_
  rw [getElem?_window]
  by_cases hk : k < bytes.length
  · rw [if_pos hk, get?_of_holds h hk]
  · rw [if_neg hk, List.getElem?_eq_none (by omega)]

theorem le_size_of_holds {bytes : List UInt8} {offset : Nat}
    (h : image.holds bytes offset = true) (hne : bytes ≠ []) :
    offset + bytes.length ≤ image.size := by
  have hpos := List.length_pos_iff.2 hne
  have hlt : bytes.length - 1 < bytes.length := by omega
  have hlast := get?_of_holds h hlt
  rw [List.getElem?_eq_getElem (by omega)] at hlast
  obtain ⟨hlt, _⟩ := Array.getElem?_eq_some_iff.1 hlast
  show _ ≤ image.bytes.size
  omega

end Image

/-! ## Places -/

theorem length_place (offset : Nat) (entries : List Entry) :
    (place offset entries).length = entries.length := by
  induction entries generalizing offset with
  | nil => rfl
  | cons entry rest ih => rw [place, List.length_cons, List.length_cons, ih]

theorem mem_place {offset : Nat} {entries : List Entry} {p : Placement}
    (h : p ∈ place offset entries) : p.entry ∈ entries ∧ offset ≤ p.offset := by
  induction entries generalizing offset with
  | nil => cases h
  | cons entry rest ih =>
      rw [place] at h
      rcases List.mem_cons.1 h with rfl | hrest
      · exact ⟨List.mem_cons_self .., Nat.le_refl _⟩
      · obtain ⟨hmem, hle⟩ := ih hrest
        exact ⟨List.mem_cons_of_mem entry hmem, by omega⟩

/-- Entries that are not empty have different places. -/
theorem pairwise_place {offset : Nat} {entries : List Entry}
    (hsize : ∀ e ∈ entries, 0 < e.size) :
    (place offset entries).Pairwise fun p q => p.offset < q.offset := by
  induction entries generalizing offset with
  | nil => exact List.Pairwise.nil
  | cons entry rest ih =>
      have hpos := hsize entry (List.mem_cons_self ..)
      refine List.pairwise_cons.2 ⟨?_, ih fun e he => hsize e (List.mem_cons_of_mem entry he)⟩
      intro q hq
      have := (mem_place hq).2
      show offset < q.offset
      omega

namespace Linked

variable {fw : Linked} {config : Config}

theorem Lawful.exists_entries (h : fw.Lawful config) :
    ∃ first next rest, fw.entries = first :: next :: rest := by
  have htwo := h.two_le
  cases hentries : fw.entries with
  | nil =>
      rw [hentries] at htwo
      exact absurd htwo (by decide)
  | cons first rest =>
      cases rest with
      | nil =>
          rw [hentries] at htwo
          exact absurd htwo (Nat.not_succ_le_self 1)
      | cons next rest => exact ⟨first, next, rest, rfl⟩

theorem Lawful.size_pos (h : fw.Lawful config) : ∀ e ∈ fw.entries, 0 < e.size := by
  intro e he
  have := (h.padded e he).1
  show 0 < e.name.length + e.padding
  omega

theorem Lawful.mem_entries (h : fw.Lawful config) {p : Placement} (hp : p ∈ fw.table) :
    p.entry ∈ fw.entries :=
  (mem_place (h.arranged.mem_iff.1 hp)).1

theorem Lawful.length_table (h : fw.Lawful config) : fw.table.length = fw.entries.length := by
  rw [h.arranged.length_eq, placed, length_place]

theorem Lawful.pairwise_placed (h : fw.Lawful config) :
    fw.placed.Pairwise fun p q => p.offset < q.offset :=
  pairwise_place h.size_pos

theorem Lawful.nodup_table (h : fw.Lawful config) : fw.table.Nodup := by
  refine h.arranged.nodup_iff.2 (h.pairwise_placed.imp ?_)
  rintro p q hlt rfl
  exact Nat.lt_irrefl _ hlt

/-- No name address wraps around. -/
theorem Lawful.toNat_nameAddress (h : fw.Lawful config) {p : Placement} (hp : p ∈ fw.placed) :
    (fw.nameAddress p).toNat = fw.load.toNat + p.offset :=
  UInt32.toNat_ofNat_of_lt' (h.addressed p hp).2

/-! ## Where the parts stand -/

theorem holds_parts (fw : Linked) :
    fw.image.holds fw.below 0 = true ∧ fw.image.holds fw.strings fw.below.length = true ∧
      fw.image.holds (fw.table.flatMap fw.record) fw.tableExtent.start = true := by
  have hwhole := Image.holds_ofList
    (fw.below ++ (fw.strings ++ (fw.between ++ (fw.table.flatMap fw.record ++ fw.above))))
  rw [Image.holds_append, Image.holds_append, Image.holds_append, Image.holds_append] at hwhole
  obtain ⟨hbelow, hstrings, _, htable, _⟩ := hwhole
  rw [Nat.zero_add] at hstrings htable
  exact ⟨hbelow, hstrings, htable⟩

end Linked

end FirmwareSymbols
