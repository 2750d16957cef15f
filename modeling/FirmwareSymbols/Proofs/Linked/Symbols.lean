import FirmwareSymbols.Proofs.Alignment
import FirmwareSymbols.Proofs.FirstTable
import FirmwareSymbols.Proofs.Linked

/-!
# The symbol table of a linked image

The scan finds the records of a layout where they stand, each of them
decodes to what was written, sorting them by name undoes the order in
which they were written, and measuring them gives the sizes of the
entries.

## Main results

* `Linked.decode?_record`: a record decodes to the symbol of its entry.
* `Linked.Apparent.findTable_eq`: the scan finds the table.
* `Linked.Lawful.decodeTable_eq`: the table decodes to the symbols of the
  layout.
-/

namespace FirmwareSymbols

/-! ## The stored form -/

theorem Release.length_signature (release : Release) (code : UInt8) :
    (release.signature code).length = release.signatureSize := by
  cases release <;> rfl

theorem ByteOrder.bytes_ne_zeroWord {order : ByteOrder} {word : UInt32} (h : word ≠ 0) :
    order.bytes word ≠ zeroWord := by
  intro heq
  have hread := order.word?_bytes word
  rw [heq] at hread
  apply h
  cases order
  · exact (Option.some.inj hread).symm
  · exact (Option.some.inj hread).symm

theorem field_append {before stored behind : List UInt8} {distance count : Nat}
    (hbefore : before.length = distance) (hstored : stored.length = count) :
    field (before ++ (stored ++ behind)) distance count = stored := by
  rw [field, List.drop_left' hbefore, List.take_left' hstored]

theorem Image.word?_of_holds {image : Image} (order : ByteOrder) {stored : List UInt8}
    {offset : Nat} (h : image.holds stored offset = true) (hlength : stored.length = 4) :
    image.word? order offset = order.word? stored := by
  have hwindow := window_of_holds h
  rw [hlength] at hwindow
  rw [word?, hwindow]

namespace Linked

variable {fw : Linked} {config : Config}

/-! ## One record -/

theorem length_record (fw : Linked) (p : Placement) :
    (fw.record p).length = fw.release.recordSize := by
  simp only [record, List.length_append, ByteOrder.length_bytes, Release.length_signature]
  cases fw.release <;> rfl

theorem Lawful.nameAddress_ne_zero (h : fw.Lawful config) {p : Placement} (hp : p ∈ fw.placed) :
    fw.nameAddress p ≠ 0 := by
  intro hzero
  have haddress := h.toNat_nameAddress hp
  rw [hzero] at haddress
  have : (0 : UInt32).toNat = 0 := rfl
  have := (h.addressed p hp).1
  omega

theorem Lawful.accepts_record (h : fw.Lawful config) {p : Placement} (hp : p ∈ fw.table) :
    fw.release.accepts (fw.record p) = true := by
  have hplaced := h.arranged.mem_iff.1 hp
  have hentry := h.mem_entries hp
  refine Release.accepts_iff.2 ⟨fw.length_record p, rfl, ?_, ?_, ?_⟩
  · have hfield : field (fw.record p) 4 4 = fw.order.bytes (fw.nameAddress p) :=
      field_append rfl (ByteOrder.length_bytes _ _)
    rw [hfield]
    exact ByteOrder.bytes_ne_zeroWord (h.nameAddress_ne_zero hplaced)
  · refine (h.defined p.entry hentry).imp_right fun hdest => ?_
    have hfield : field (fw.record p) 8 4 = fw.order.bytes p.entry.destAddress := by
      rw [record, ← List.append_assoc]
      exact field_append (by rw [List.length_append, ByteOrder.length_bytes]; rfl)
        (ByteOrder.length_bytes _ _)
    rw [hfield]
    exact ByteOrder.bytes_ne_zeroWord hdest
  · have hdrop : (fw.record p).drop (fw.release.recordSize - fw.release.signatureSize) =
        fw.release.signature p.entry.typeCode := by
      rw [record, ← List.append_assoc, ← List.append_assoc]
      refine List.drop_left' ?_
      simp only [List.length_append, ByteOrder.length_bytes]
      cases fw.release <;> rfl
    rw [hdrop]
    exact List.mem_map_of_mem (h.typed p.entry hentry)

/-- The last word of a record holds its type code. -/
theorem holds_flags (fw : Linked) {image : Image} {p : Placement} {offset : Nat}
    (h : image.holds (fw.release.signature p.entry.typeCode) (offset + 12) = true) :
    image.holds [0, 0, p.entry.typeCode, 0] (offset + fw.release.recordSize - 4) = true := by
  cases hrelease : fw.release with
  | v5 =>
      rw [hrelease] at h
      exact h
  | v6 =>
      rw [hrelease, show Release.v6.signature p.entry.typeCode =
        [0, 0, 0, 0] ++ [0, 0, p.entry.typeCode, 0] from rfl, Image.holds_append] at h
      exact h.2

/-- A record decodes to what was written. -/
theorem decode?_record {image : Image} {p : Placement} {offset : Nat}
    (h : image.holds (fw.record p) offset = true) :
    fw.release.decode? image fw.order offset =
      some ⟨offset, fw.nameAddress p, p.entry.destAddress, none, fw.flags p.entry.typeCode,
        p.entry.typeCode⟩ := by
  rw [record, Image.holds_append, Image.holds_append, Image.holds_append,
    ByteOrder.length_bytes, ByteOrder.length_bytes] at h
  obtain ⟨_, hname, hdest, hsignature⟩ := h
  have hlast := fw.holds_flags hsignature
  have hsize := fw.release.signatureSize_add_twelve_le
  have hnameWord : image.word? fw.order (offset + 4) = some (fw.nameAddress p) := by
    rw [← ByteOrder.word?_bytes fw.order (fw.nameAddress p)]
    exact Image.word?_of_holds fw.order hname (ByteOrder.length_bytes _ _)
  have hdestWord : image.word? fw.order (offset + 8) = some p.entry.destAddress := by
    rw [← ByteOrder.word?_bytes fw.order p.entry.destAddress]
    exact Image.word?_of_holds fw.order hdest (ByteOrder.length_bytes _ _)
  have hflags : image.word? fw.order (offset + fw.release.recordSize - 4) =
      some (fw.flags p.entry.typeCode) := by
    rw [Image.word?_of_holds fw.order hlast rfl, flags]
    cases fw.order <;> rfl
  have hcode : image.get? (offset + fw.release.recordSize - 2) = some p.entry.typeCode := by
    have hbyte := Image.get?_of_holds hlast (show 2 < 4 by decide)
    rw [show offset + fw.release.recordSize - 2 = offset + fw.release.recordSize - 4 + 2 by omega]
    exact hbyte
  simp only [Release.decode?, hnameWord, hdestWord, hflags, hcode]
  rfl

/-! ## The whole table -/

theorem holds_record {image : Image} {offset : Nat} {table : List Placement}
    (h : image.holds (table.flatMap fw.record) offset = true) :
    ∀ k p, table[k]? = some p →
      image.holds (fw.record p) (offset + k * fw.release.recordSize) = true := by
  induction table generalizing offset with
  | nil =>
      intro k p hp
      cases hp
  | cons q rest ih =>
      rw [List.flatMap_cons, Image.holds_append, length_record] at h
      obtain ⟨hfirst, hrest⟩ := h
      intro k p hp
      cases k with
      | zero =>
          cases hp
          rwa [Nat.zero_mul]
      | succ k =>
          have hnext := ih hrest k p hp
          rwa [Nat.succ_mul, Nat.add_comm (k * _), ← Nat.add_assoc]

/-- The records of the table, one by one. -/
theorem holds_tableExtent (fw : Linked) {k : Nat} {p : Placement} (hp : fw.table[k]? = some p) :
    fw.image.holds (fw.record p) (fw.tableExtent.start + k * fw.release.recordSize) = true :=
  holds_record fw.holds_parts.2.2 k p hp

theorem Lawful.recordAt_tableExtent (h : fw.Lawful config) {k : Nat} (hk : k < fw.table.length) :
    fw.release.recordAt fw.image (fw.tableExtent.start + k * fw.release.recordSize) = true := by
  have hp := List.getElem?_eq_getElem hk
  have hwindow := Image.window_of_holds (fw.holds_tableExtent hp)
  rw [length_record] at hwindow
  rw [Release.recordAt, hwindow]
  exact h.accepts_record (List.getElem_mem hk)

/-- The scan finds the records of the layout. -/
theorem Apparent.findTable_eq (hclear : fw.Apparent config) (h : fw.Lawful config) :
    config.findTable fw.image .unbounded = .ok (some fw.tableExtent) := by
  have hrelease := h.release_eq
  have hbegins := Release.startsRun_iff.1 hclear.starts
  have hleast : ∀ offset, fw.release.BeginsTable fw.image config.minTableRun.toNat offset →
      fw.tableExtent.start ≤ offset := by
    intro offset hoffset
    rcases Nat.lt_or_ge offset fw.tableExtent.start with hlt | hge
    · have hrefused := hclear.least offset hlt
      rw [Release.startsRun_iff.2 hoffset] at hrefused
      cases hrefused
    · exact hge
  have hend : fw.release.runEnd fw.image fw.tableExtent.start = fw.tableExtent.stop :=
    Release.runEnd_eq_iff.2 ⟨fun k hk => h.recordAt_tableExtent hk, hclear.ends⟩
  have hfirst := Release.isFirstTable_runEnd hbegins hleast
  rw [hend] at hfirst
  have hpos : 0 < fw.table.length := by
    have := h.length_table
    have := h.two_le
    omega
  have hfits := Release.fits_of_recordAt (h.recordAt_tableExtent hpos)
  exact Config.findTable_eq_some_iff.2 ⟨by rw [hrelease]; omega, by rw [hrelease]; exact hfirst⟩

/-! ## Decoding the table -/

theorem filterMap_range'_eq_map {α β : Type} {g : Nat → Option β} {f : α → β} {step : Nat}
    (l : List α) : ∀ start, (∀ k a, l[k]? = some a → g (start + k * step) = some (f a)) →
      (List.range' start l.length step).filterMap g = l.map f := by
  induction l with
  | nil => exact fun _ _ => rfl
  | cons a rest ih =>
      intro start hall
      have hfirst := hall 0 a rfl
      rw [Nat.zero_mul, Nat.add_zero] at hfirst
      rw [List.length_cons, List.range'_succ, List.filterMap_cons, hfirst, List.map_cons]
      show f a :: _ = f a :: _
      rw [ih]
      intro k b hb
      have hnext := hall (k + 1) b hb
      rwa [Nat.succ_mul, Nat.add_comm (k * step), ← Nat.add_assoc] at hnext

/-- The records decode to symbols without lengths, in the order in which they were written. -/
theorem Lawful.decode_slots (h : fw.Lawful config) :
    (fw.tableExtent.slots fw.release.recordSize).filterMap
        (fw.release.decode? fw.image fw.order) =
      fw.table.map fun p => fw.symbol p none := by
  have hslots : fw.tableExtent.slots fw.release.recordSize =
      List.range' fw.tableExtent.start fw.table.length fw.release.recordSize :=
    Span.slots_whole fw.release.recordSize_pos _
  rw [hslots]
  refine filterMap_range'_eq_map fw.table _ fun k p hp => ?_
  have hindex : fw.table.idxOf p = k := by
    obtain ⟨hk, heq⟩ := List.getElem?_eq_some_iff.1 hp
    rw [← heq, h.nodup_table.idxOf_getElem]
  rw [decode?_record (fw.holds_tableExtent hp), symbol, hindex]

theorem Lawful.eq_of_offset_eq (h : fw.Lawful config) {p q : Placement} (hp : p ∈ fw.placed)
    (hq : q ∈ fw.placed) (heq : p.offset = q.offset) : p = q := by
  have hplaces := List.pairwise_iff_getElem.1 h.pairwise_placed
  obtain ⟨i, hi, rfl⟩ := List.getElem_of_mem hp
  obtain ⟨j, hj, rfl⟩ := List.getElem_of_mem hq
  rcases Nat.lt_trichotomy i j with hlt | hsame | hgt
  · have := hplaces i j hi hj hlt
    omega
  · subst hsame
    rfl
  · have := hplaces j i hj hi hgt
    omega

/-- Sorting by name undoes the order of the records. -/
theorem Lawful.sortByName_symbols (h : fw.Lawful config) :
    Symbol.sortByName (fw.table.map fun p => fw.symbol p none) =
      fw.placed.map fun p => fw.symbol p none := by
  have hperm : (Symbol.sortByName (fw.table.map fun p => fw.symbol p none)).Perm
      (fw.placed.map fun p => fw.symbol p none) :=
    (List.mergeSort_perm _ _).trans (h.arranged.map _)
  have hsorted : (fw.placed.map fun p => fw.symbol p none).Pairwise
      fun s next => s.nameAddress ≤ next.nameAddress := by
    rw [List.pairwise_map]
    refine h.pairwise_placed.imp_of_mem fun hp hq hlt => ?_
    rw [UInt32.le_iff_toNat_le]
    show (fw.nameAddress _).toNat ≤ (fw.nameAddress _).toNat
    rw [h.toNat_nameAddress hp, h.toNat_nameAddress hq]
    omega
  refine hperm.eq_of_pairwise ?_ (Symbol.pairwise_sortByName _) hsorted
  intro s t hs ht hle hge
  obtain ⟨p, hp, rfl⟩ := List.mem_map.1 (hperm.mem_iff.1 hs)
  obtain ⟨q, hq, rfl⟩ := List.mem_map.1 ht
  have haddress : (fw.nameAddress p).toNat = (fw.nameAddress q).toNat :=
    Nat.le_antisymm (UInt32.le_iff_toNat_le.1 hle) (UInt32.le_iff_toNat_le.1 hge)
  rw [h.toNat_nameAddress hp, h.toNat_nameAddress hq] at haddress
  rw [h.eq_of_offset_eq hp hq (Nat.add_left_cancel haddress)]

/-- The distance of neighbouring name addresses is the size of the entry between them. -/
theorem withLengths_place (fw : Linked) {entries : List Entry} {offset : Nat}
    (haddress : ∀ p ∈ place offset entries, fw.load.toNat + p.offset < UInt32.size) :
    Symbol.withLengths ((place offset entries).map fun p => fw.symbol p none) =
      fw.symbolsOf (place offset entries) := by
  induction entries generalizing offset with
  | nil => rfl
  | cons entry rest ih =>
      cases rest with
      | nil => rfl
      | cons next rest =>
          have hrest := ih fun p hp => haddress p (List.mem_cons_of_mem _ hp)
          have hdistance : (fw.symbol ⟨offset + entry.size, next⟩ none).nameAddress -
              (fw.symbol ⟨offset, entry⟩ none).nameAddress = .ofNat entry.size := by
            show fw.nameAddress _ - fw.nameAddress _ = _
            have hbound : fw.load.toNat + (offset + entry.size) < UInt32.size :=
              haddress ⟨offset + entry.size, next⟩
                (List.mem_cons_of_mem _ (List.mem_cons_self ..))
            apply UInt32.toNat_inj.1
            have hlow : (fw.nameAddress ⟨offset, entry⟩).toNat = fw.load.toNat + offset :=
              UInt32.toNat_ofNat_of_lt' (show fw.load.toNat + offset < UInt32.size by omega)
            have hhigh : (fw.nameAddress ⟨offset + entry.size, next⟩).toNat =
                fw.load.toNat + (offset + entry.size) :=
              UInt32.toNat_ofNat_of_lt' hbound
            rw [UInt32.toNat_sub_of_le _ _ (UInt32.le_iff_toNat_le.2 (by omega)), hlow, hhigh,
              UInt32.toNat_ofNat_of_lt' (show entry.size < UInt32.size by omega)]
            omega
          rw [place] at hrest ⊢
          rw [place, symbolsOf, ← hrest, List.map_cons, List.map_cons, Symbol.withLengths,
            hdistance]
          rfl

/-- The table decodes to the symbols of the layout. -/
theorem Lawful.decodeTable_eq (h : fw.Lawful config) :
    fw.release.decodeTable fw.image fw.order fw.tableExtent = fw.symbolsOf fw.placed := by
  rw [Release.decodeTable, h.decode_slots, h.sortByName_symbols]
  exact fw.withLengths_place fun p hp => (h.addressed p hp).2

/-- The first half of an analysis recovers the symbol table. -/
theorem Apparent.readSymbols_eq (hclear : fw.Apparent config) (h : fw.Lawful config) :
    config.readSymbols fw.image .unbounded =
      .ok (some ⟨fw.tableExtent, fw.order, fw.symbolsOf fw.placed⟩) := by
  refine Config.readSymbols_eq_some_iff.2 ⟨fw.tableExtent, hclear.findTable_eq h, ?_⟩
  have horder : config.byteOrder.getD
      (config.release.detectOrder fw.image fw.tableExtent.start) = fw.order := by
    rw [h.release_eq]
    rcases hclear.order with hset | ⟨hunset, hdetected⟩
    · rw [hset, Option.getD_some]
    · rw [hunset, Option.getD_none, hdetected]
  rw [Config.tableIn, horder, h.release_eq, h.decodeTable_eq]

end Linked

end FirmwareSymbols
