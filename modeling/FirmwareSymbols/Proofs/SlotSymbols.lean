import FirmwareSymbols.Proofs.Alignment
import FirmwareSymbols.Proofs.DecodedTable
import FirmwareSymbols.Report
import Mathlib.Data.List.Nodup
import Mathlib.Data.List.Perm.Basic

/-!
# One symbol for each slot

Decoding a table leaves out the slots that the image ends in the middle of,
sorts what is left, and then goes over the sorted list to set the lengths.
None of this loses, repeats or mixes up a symbol: the result has one symbol
for each slot that the image has all of, in an order and with lengths that
leave no choice, and sorting it by place gives the slots back.

## Main results

* `Symbol.measured_withLengths`, `Symbol.Measured.withLengths_unmeasured`:
  the lengths of a sorted list, and that there are no others.
* `Symbol.Measured.add_totalLength`: the lengths add up.
* `Release.symbolsOf_decodeTable`, `Release.SymbolsOf.unique`: what a
  decoded table is, and that nothing else is like this.
* `Release.decodeTable_lossless`: decoding loses nothing.
-/

namespace FirmwareSymbols

/-! ## Measured symbols -/

namespace Symbol

/-- Symbols as sorting and measuring leaves them: each but the last reaches to the name of the next one, and
the last one has no length. -/
structure Measured (symbols : List Symbol) : Prop where
  reaches : symbols.IsChain Reaches
  last : ∀ s, symbols.getLast? = some s → s.nameLength = none

/-- The lengths of some symbols taken together. -/
def totalLength (symbols : List Symbol) : Nat :=
  (symbols.filterMap nameLength).foldr (fun length total => length.toNat + total) 0

/-- The order of symbols does not depend on their lengths. -/
theorem pairwise_precedes_unmeasured {symbols : List Symbol} :
    (symbols.map unmeasured).Pairwise Precedes ↔ symbols.Pairwise Precedes :=
  List.pairwise_map

theorem nameLength_getLast?_withLengths {symbols : List Symbol}
    (hnone : ∀ s ∈ symbols, s.nameLength = none) :
    ∀ s, (withLengths symbols).getLast? = some s → s.nameLength = none := by
  fun_induction withLengths symbols with
  | case1 s next rest ih =>
      have hrest := ih fun t ht => hnone t (List.mem_cons_of_mem s ht)
      have hlength := length_withLengths (next :: rest)
      cases hmeasured : withLengths (next :: rest) with
      | nil =>
          rw [hmeasured] at hlength
          cases hlength
      | cons t others =>
          rw [hmeasured] at hrest
          rwa [List.getLast?_cons_cons]
  | case2 short => exact fun s hs => hnone s (List.mem_of_getLast? hs)

theorem measured_withLengths {symbols : List Symbol}
    (hsorted : symbols.Pairwise fun s next => s.nameAddress ≤ next.nameAddress)
    (hnone : ∀ s ∈ symbols, s.nameLength = none) : Measured (withLengths symbols) :=
  ⟨isChain_withLengths hsorted, nameLength_getLast?_withLengths hnone⟩

namespace Measured

variable {s next : Symbol} {rest symbols : List Symbol}

theorem tail (h : Measured (s :: next :: rest)) : Measured (next :: rest) :=
  ⟨h.reaches.tail, fun t ht => h.last t (by rwa [List.getLast?_cons_cons])⟩

theorem reaches_head (h : Measured (s :: next :: rest)) : s.Reaches next :=
  (List.isChain_cons_cons.1 h.reaches).1

/-- The lengths of measured symbols are told by their addresses. -/
theorem withLengths_unmeasured (h : Measured symbols) :
    withLengths (symbols.map unmeasured) = symbols := by
  induction symbols with
  | nil => rfl
  | cons s rest ih =>
      cases rest with
      | nil =>
          show [s.unmeasured] = [s]
          rw [unmeasured_of_nameLength (h.last s rfl)]
      | cons next rest =>
          have hrest := ih h.tail
          rw [List.map_cons] at hrest
          rw [List.map_cons, List.map_cons, withLengths, hrest, List.cons.injEq]
          refine ⟨?_, rfl⟩
          show { s with nameLength := some (next.nameAddress - s.nameAddress) } = s
          rw [← h.reaches_head.2]

/-- The lengths add up to the distance of the last name from the first. -/
theorem add_totalLength (h : Measured (s :: rest)) :
    ∀ last, (s :: rest).getLast? = some last →
      s.nameAddress.toNat + totalLength (s :: rest) = last.nameAddress.toNat := by
  induction rest generalizing s with
  | nil =>
      intro last hlast
      cases hlast
      have hnone := h.last s rfl
      rw [totalLength, List.filterMap_cons_none hnone]
      rfl
  | cons next rest ih =>
      intro last hlast
      rw [List.getLast?_cons_cons] at hlast
      have hreach := h.reaches_head
      have hrest := ih h.tail last hlast
      have htotal : totalLength (s :: next :: rest) =
          (next.nameAddress - s.nameAddress).toNat + totalLength (next :: rest) := by
        rw [totalLength, List.filterMap_cons_some hreach.2]
        rfl
      rw [htotal, ← Nat.add_assoc, ← hreach.toNat_eq hreach.2, hrest]

end Measured

end Symbol

/-! ## The symbols of a table -/

namespace Release

variable {release : Release} {image : Image} {order : ByteOrder} {table : Span}

/-- The symbols of the table at a span: one for each slot whose record the image has all of, with the fields
of that record, by the address of its name and, for equal names, by slot, and measured. -/
structure SymbolsOf (release : Release) (image : Image) (order : ByteOrder) (table : Span)
    (symbols : List Symbol) : Prop where
  distinct : (symbols.map Symbol.offset).Nodup
  slots : ∀ offset, offset ∈ symbols.map Symbol.offset ↔
    offset < table.stop ∧ (∃ k, offset = table.start + k * release.recordSize) ∧
      offset + release.recordSize ≤ image.size
  shows : ∀ s ∈ symbols, release.Shows image order s
  ordered : symbols.Pairwise Symbol.Precedes
  measured : Symbol.Measured symbols

theorem Shows.decode? {s : Symbol} (h : release.Shows image order s) :
    release.decode? image order s.offset = some s.unmeasured :=
  decode?_eq_some_iff.2 ⟨rfl, rfl, h.nameAddress, h.destAddress, h.flags, h.typeCode⟩

theorem Shows.of_unmeasured {s : Symbol} (h : release.Shows image order s.unmeasured) :
    release.Shows image order s :=
  ⟨h.nameAddress, h.destAddress, h.flags, h.typeCode⟩

/-- The slots of a table whose records the image has all of. -/
theorem mem_slots_filter_iff {offset : Nat} :
    offset ∈ (table.slots release.recordSize).filter
        (fun offset => offset + release.recordSize ≤ image.size) ↔
      offset < table.stop ∧ (∃ k, offset = table.start + k * release.recordSize) ∧
        offset + release.recordSize ≤ image.size := by
  have hpos := release.recordSize_pos
  rw [List.mem_filter, Span.mem_slots_iff, decide_eq_true_eq, and_assoc,
    show max release.recordSize 1 = release.recordSize by omega]
  simp only [Nat.mul_comm]

theorem symbolsOf_decodeTable (release : Release) (image : Image) (order : ByteOrder)
    (table : Span) :
    release.SymbolsOf image order table (release.decodeTable image order table) := by
  have hslots := Span.pairwise_slots table release.recordSize
  have hplaces := release.offset_perm_decodeTable image order table
  refine ⟨?_, ?_, ?_, ?_, ?_⟩
  · refine hplaces.nodup_iff.2 ?_
    exact (hslots.imp Nat.ne_of_lt).filter _
  · intro offset
    rw [hplaces.mem_iff, mem_slots_filter_iff]
  · intro s hs
    obtain ⟨offset, _, hdecoded⟩ := exists_slot_of_mem hs
    exact (decode?_eq_some_iff.1 hdecoded).2.2.of_unmeasured
  · -- the slots ascend, so the stable sort leaves equal names by slot
    have hascending : ((table.slots release.recordSize).filterMap
        (release.decode? image order)).Pairwise fun s t => s.offset < t.offset := by
      rw [← List.pairwise_map, map_offset_decode]
      exact hslots.filter _
    have hordered := Symbol.pairwise_precedes_sortByName hascending
    rw [← Symbol.pairwise_precedes_unmeasured] at hordered ⊢
    rwa [decodeTable, Symbol.map_unmeasured_withLengths]
  · refine Symbol.measured_withLengths (Symbol.pairwise_sortByName _) fun s hs => ?_
    obtain ⟨offset, _, hdecoded⟩ := List.mem_filterMap.1 (List.mem_mergeSort.1 hs)
    exact (decode?_eq_some_iff.1 hdecoded).2.1

/-- A slot has one symbol, whatever its length was set to. -/
theorem SymbolsOf.mem_unmeasured {symbols others : List Symbol}
    (h : release.SymbolsOf image order table symbols)
    (hothers : release.SymbolsOf image order table others) {s : Symbol}
    (hs : s ∈ symbols.map Symbol.unmeasured) : s ∈ others.map Symbol.unmeasured := by
  obtain ⟨u, hu, rfl⟩ := List.mem_map.1 hs
  have hslot := (hothers.slots u.offset).2 ((h.slots u.offset).1 (List.mem_map_of_mem hu))
  obtain ⟨t, ht, hoffset⟩ := List.mem_map.1 hslot
  have hread := (hothers.shows t ht).decode?
  rw [hoffset, (h.shows u hu).decode?] at hread
  rw [Option.some.inj hread]
  exact List.mem_map_of_mem ht

theorem SymbolsOf.nodup_unmeasured {symbols : List Symbol}
    (h : release.SymbolsOf image order table symbols) :
    (symbols.map Symbol.unmeasured).Nodup := by
  have hdistinct := h.distinct
  rw [show Symbol.offset = Symbol.offset ∘ Symbol.unmeasured from rfl, ← List.map_map] at hdistinct
  exact List.Nodup.of_map _ hdistinct

/-- A table has no other symbols. -/
theorem SymbolsOf.unique {symbols others : List Symbol}
    (h : release.SymbolsOf image order table symbols)
    (hothers : release.SymbolsOf image order table others) : symbols = others := by
  have hperm : (symbols.map Symbol.unmeasured).Perm (others.map Symbol.unmeasured) :=
    (List.perm_ext_iff_of_nodup h.nodup_unmeasured hothers.nodup_unmeasured).2 fun _ =>
      ⟨h.mem_unmeasured hothers, hothers.mem_unmeasured h⟩
  have hsame : symbols.map Symbol.unmeasured = others.map Symbol.unmeasured :=
    hperm.eq_of_pairwise (fun _ _ _ _ hst hts => absurd hts (Symbol.Precedes.not_symm hst))
      (Symbol.pairwise_precedes_unmeasured.2 h.ordered)
      (Symbol.pairwise_precedes_unmeasured.2 hothers.ordered)
  rw [← h.measured.withLengths_unmeasured, hsame, hothers.measured.withLengths_unmeasured]

/-- In the order of their places the symbols of a table are at its slots, one after the other. -/
theorem map_offset_sortByOffset (release : Release) (image : Image) (order : ByteOrder)
    (table : Span) :
    (Symbol.sortByOffset (release.decodeTable image order table)).map Symbol.offset =
      (table.slots release.recordSize).filter fun offset =>
        offset + release.recordSize ≤ image.size := by
  have hsorted := Symbol.pairwise_sortByOffset (release.decodeTable image order table)
  have hperm := (List.mergeSort_perm (release.decodeTable image order table)
    fun s t => decide (s.offset ≤ t.offset)).map Symbol.offset
  have hslots := (Span.pairwise_slots table release.recordSize).imp Nat.le_of_lt
  exact (hperm.trans (release.offset_perm_decodeTable image order table)).eq_of_pairwise
    (fun _ _ _ _ hle hge => Nat.le_antisymm hle hge) (List.pairwise_map.2 hsorted)
    (hslots.filter _)

/-- Decoding a table gives the symbols of the table, which are determined by what they have to be; their
lengths add up to the distance of the last name from the first; and in the order of their places they are
at the slots of the table, one after the other. -/
theorem decodeTable_lossless (release : Release) (image : Image) (order : ByteOrder) (table : Span) :
    (∀ symbols, release.SymbolsOf image order table symbols ↔
      symbols = release.decodeTable image order table) ∧
    (∀ first last, (release.decodeTable image order table).head? = some first →
      (release.decodeTable image order table).getLast? = some last →
      first.nameAddress.toNat + Symbol.totalLength (release.decodeTable image order table) =
        last.nameAddress.toNat) ∧
    ∀ report : Report,
      let decoded := { report with symbols := release.decodeTable image order table }
      decoded.inTableOrder.Perm decoded.symbols ∧
        decoded.inTableOrder.map Symbol.offset = (table.slots release.recordSize).filter
          fun offset => offset + release.recordSize ≤ image.size := by
  have hdecoded := release.symbolsOf_decodeTable image order table
  refine ⟨fun symbols => ⟨fun h => h.unique hdecoded, ?_⟩, ?_, fun report => ⟨?_, ?_⟩⟩
  · rintro rfl
    exact hdecoded
  · intro first last hfirst hlast
    obtain ⟨rest, hrest⟩ := List.head?_eq_some_iff.1 hfirst
    have hmeasured := hdecoded.measured
    rw [hrest] at hmeasured hlast ⊢
    exact hmeasured.add_totalLength last hlast
  · exact List.mergeSort_perm _ _
  · exact release.map_offset_sortByOffset image order table

end Release

end FirmwareSymbols
