import FirmwareSymbols.Proofs.FirstTable
import FirmwareSymbols.Symbol.Decode
import Mathlib.Data.List.Basic

/-!
# The symbols of a table

The scan looks at stored bytes, the decoder at words in some byte order.
What the scan has seen in the bytes of a record holds of its words in
either order: an address that is missing is the word zero in both, and
the flag word tells functions apart in both. Sorting and measuring then
neither drop nor repeat a record.

## Main results

* `Release.decode?_eq_some_iff`, `Release.isSome_decode?_iff`: what
  decoding a record gives, and where it gives something.
* `Release.exists_symbol_of_recordAt`: a record decodes to a symbol with
  addresses and a known type code.
* `Release.decodeTable_perm`, `Release.offset_perm_decodeTable`: a table
  decodes to the symbols of its slots.
* `Release.IsFirstTable.offset_perm`, `Release.IsFirstTable.admits_symbols`:
  what the decoded first table looks like.
-/

namespace FirmwareSymbols

/-! ## Words of a record -/

theorem Image.exists_word? {image : Image} (order : ByteOrder) {offset : Nat}
    (hfits : offset + 4 ≤ image.size) : ∃ word, image.word? order offset = some word :=
  Option.isSome_iff_exists.1 (isSome_word?_iff.2 hfits)

/-- Zero is stored as four nulls in either order. -/
theorem Image.ne_zero_of_word? {image : Image} {order : ByteOrder} {offset : Nat} {word : UInt32}
    (h : image.word? order offset = some word) (hstored : image.window offset 4 ≠ zeroWord) :
    word ≠ 0 := by
  rintro rfl
  apply hstored
  rw [← ByteOrder.bytes_of_word? h]
  cases order <;> rfl

theorem ByteOrder.toNat_wordOf (b₃ b₂ b₁ b₀ : UInt8) :
    (wordOf b₃ b₂ b₁ b₀).toNat =
      ((b₃.toNat * 256 + b₂.toNat) * 256 + b₁.toNat) * 256 + b₀.toNat := by
  have h₃ := b₃.toNat_lt
  have h₂ := b₂.toNat_lt
  have h₁ := b₁.toNat_lt
  have h₀ := b₀.toNat_lt
  apply UInt32.toNat_ofNat_of_lt'
  show _ < 4294967296
  omega

theorem Symbol.isFunction_iff {s : Symbol} :
    s.isFunction = true ↔ s.flags.toNat = 0x0500 ∨ s.flags.toNat = 0x050000 := by
  simp [isFunction, functionFlags, ← UInt32.toNat_inj]

/-- A function is told by its type code, whichever way its flag word was read. -/
theorem ByteOrder.isFunction_iff {order : ByteOrder} {code : UInt8} {s : Symbol}
    (h : order.word? [0, 0, code, 0] = some s.flags) : s.isFunction = true ↔ code = 0x05 := by
  have hcode := code.toNat_lt
  have hzero : (0 : UInt8).toNat = 0 := rfl
  have hfive : (0x05 : UInt8).toNat = 5 := rfl
  rw [Symbol.isFunction_iff, ← UInt8.toNat_inj]
  cases order with
  | little =>
      have hflags : wordOf 0 code 0 0 = s.flags := Option.some.inj h
      have hvalue := toNat_wordOf 0 code 0 0
      rw [hflags] at hvalue
      omega
  | big =>
      have hflags : wordOf 0 0 code 0 = s.flags := Option.some.inj h
      have hvalue := toNat_wordOf 0 0 code 0
      rw [hflags] at hvalue
      omega

namespace Release

variable {release : Release} {image : Image}

theorem field_window {offset distance count : Nat} (h : distance + count ≤ release.recordSize) :
    field (image.window offset release.recordSize) distance count =
      image.window (offset + distance) count := by
  rw [field, Image.window_eq, Image.window_eq, List.drop_take, List.take_take, List.drop_drop,
    Nat.min_eq_left (by omega)]

theorem drop_window {offset distance : Nat} :
    (image.window offset release.recordSize).drop distance =
      image.window (offset + distance) (release.recordSize - distance) := by
  rw [Image.window_eq, Image.window_eq, List.drop_take, List.drop_drop]

/-- A record ends in a word that is zero but for a known type code. -/
theorem exists_code_of_recordAt {offset : Nat} (h : release.recordAt image offset = true) :
    ∃ code ∈ release.typeCodes,
      image.window (offset + release.recordSize - 4) 4 = [0, 0, code, 0] := by
  have hsignature := (accepts_iff.1 h).2.2.2.2
  rw [drop_window] at hsignature
  obtain ⟨code, hcode, hstored⟩ := List.mem_map.1 hsignature
  refine ⟨code, hcode, ?_⟩
  cases release with
  | v5 => exact hstored.symm
  | v6 =>
      have hdouble : image.window (offset + 12) (4 + 4) = [0, 0, 0, 0] ++ [0, 0, code, 0] :=
        hstored.symm
      rw [Image.window_append] at hdouble
      have hfits : offset + 20 ≤ image.size := fits_of_recordAt h
      exact (List.append_inj hdouble (Image.length_window (by omega))).2

/-! ## One record -/

/-- A symbol has the fields of the record at its offset. -/
structure Shows (release : Release) (image : Image) (order : ByteOrder) (s : Symbol) : Prop where
  nameAddress : image.word? order (s.offset + 4) = some s.nameAddress
  destAddress : image.word? order (s.offset + 8) = some s.destAddress
  flags : image.word? order (s.offset + release.recordSize - 4) = some s.flags
  typeCode : image.get? (s.offset + release.recordSize - 2) = some s.typeCode

/-- Decoding reads the fields of a record and no length. -/
theorem decode?_eq_some_iff {order : ByteOrder} {offset : Nat} {s : Symbol} :
    release.decode? image order offset = some s ↔
      s.offset = offset ∧ s.nameLength = none ∧ release.Shows image order s := by
  constructor
  · intro h
    simp only [decode?, Option.bind_eq_bind, Option.bind_eq_some_iff] at h
    obtain ⟨nameAddress, hname, destAddress, hdest, flags, hflags, code, hcode, heq⟩ := h
    cases heq
    exact ⟨rfl, rfl, hname, hdest, hflags, hcode⟩
  · rintro ⟨rfl, hnone, hname, hdest, hflags, hcode⟩
    rw [decode?, hname, hdest, hflags, hcode, ← hnone]
    rfl

theorem exists_symbol (order : ByteOrder) {offset : Nat}
    (hfits : offset + release.recordSize ≤ image.size) :
    ∃ s, release.decode? image order offset = some s := by
  have hsize := release.signatureSize_add_twelve_le
  obtain ⟨nameAddress, hname⟩ :=
    Image.exists_word? order (show offset + 4 + 4 ≤ image.size by omega)
  obtain ⟨destAddress, hdest⟩ :=
    Image.exists_word? order (show offset + 8 + 4 ≤ image.size by omega)
  obtain ⟨flags, hflags⟩ :=
    Image.exists_word? order (show offset + release.recordSize - 4 + 4 ≤ image.size by omega)
  obtain ⟨code, hcode⟩ : ∃ code, image.get? (offset + release.recordSize - 2) = some code :=
    ⟨_, Array.getElem?_eq_getElem (show _ < image.size by omega)⟩
  refine ⟨⟨offset, nameAddress, destAddress, none, flags, code⟩, ?_⟩
  exact decode?_eq_some_iff.2 ⟨rfl, rfl, hname, hdest, hflags, hcode⟩

/-- A record is decoded wherever the image has all of it. -/
theorem isSome_decode?_iff {order : ByteOrder} {offset : Nat} :
    (release.decode? image order offset).isSome ↔ offset + release.recordSize ≤ image.size := by
  constructor
  · intro h
    obtain ⟨s, hs⟩ := Option.isSome_iff_exists.1 h
    obtain ⟨rfl, _, hshows⟩ := decode?_eq_some_iff.1 hs
    have hsize := release.signatureSize_add_twelve_le
    have := Image.isSome_word?_iff.1 (Option.isSome_of_eq_some hshows.flags)
    omega
  · intro h
    obtain ⟨s, hs⟩ := exists_symbol order h
    exact Option.isSome_of_eq_some hs

/-- A symbol has a name, names something, and is of a known type. -/
structure Admits (release : Release) (s : Symbol) : Prop where
  named : s.nameAddress ≠ 0
  defined : release = .v5 → s.destAddress ≠ 0
  typed : s.typeCode ∈ release.typeCodes
  isFunction_iff : s.isFunction = true ↔ s.typeCode = 0x05

/-- A record decodes to a symbol, in either byte order. -/
theorem exists_symbol_of_recordAt {offset : Nat} (order : ByteOrder)
    (h : release.recordAt image offset = true) :
    ∃ s, release.decode? image order offset = some s ∧ s.offset = offset ∧
      s.nameLength = none ∧ release.Admits s := by
  obtain ⟨_, _, hname, hdest, _⟩ := accepts_iff.1 h
  obtain ⟨code, hcode, hlast⟩ := exists_code_of_recordAt h
  have hsize := release.signatureSize_add_twelve_le
  rw [field_window (by omega)] at hname
  obtain ⟨s, hs⟩ := exists_symbol order (fits_of_recordAt h)
  obtain ⟨rfl, hnone, hshows⟩ := decode?_eq_some_iff.1 hs
  have htype : s.typeCode = code := by
    have hbyte := image.getElem?_window (s.offset + release.recordSize - 4) 4 2
    rw [hlast, if_pos (by decide),
      show s.offset + release.recordSize - 4 + 2 = s.offset + release.recordSize - 2 by omega,
      hshows.typeCode] at hbyte
    exact (Option.some.inj hbyte).symm
  refine ⟨s, hs, rfl, hnone, Image.ne_zero_of_word? hshows.nameAddress hname, ?_, ?_, ?_⟩
  · rintro rfl
    rcases hdest with hallowed | hstored
    · cases hallowed
    · rw [field_window (by decide)] at hstored
      exact Image.ne_zero_of_word? hshows.destAddress hstored
  · rwa [htype]
  · have hflags := hshows.flags
    rw [Image.word?, hlast] at hflags
    rw [htype]
    exact ByteOrder.isFunction_iff hflags

end Release

/-! ## Sorting and measuring -/

namespace Symbol

/-- A symbol as it was before its name was measured. -/
def unmeasured (s : Symbol) : Symbol := { s with nameLength := none }

/-- Measuring changes nothing but the lengths. -/
theorem map_unmeasured_withLengths (symbols : List Symbol) :
    (withLengths symbols).map unmeasured = symbols.map unmeasured := by
  fun_induction withLengths symbols with
  | case1 s next rest ih => rw [List.map_cons, ih, List.map_cons]; rfl
  | case2 => rfl

theorem unmeasured_of_nameLength {s : Symbol} (h : s.nameLength = none) : s.unmeasured = s := by
  rw [unmeasured, ← h]

end Symbol

namespace Release

variable {release : Release} {image : Image}

theorem Admits.of_unmeasured {s : Symbol} (h : release.Admits s.unmeasured) : release.Admits s :=
  ⟨h.named, h.defined, h.typed, h.isFunction_iff⟩

/-- Before it is measured, a symbol of a table is the symbol of one of its slots, and each slot with a
symbol gives one. -/
theorem decodeTable_perm (release : Release) (image : Image) (order : ByteOrder) (table : Span) :
    ((release.decodeTable image order table).map Symbol.unmeasured).Perm
      (((table.slots release.recordSize).filterMap (release.decode? image order)).map
        Symbol.unmeasured) := by
  rw [decodeTable, Symbol.map_unmeasured_withLengths]
  exact (List.mergeSort_perm _ _).map _

theorem exists_slot_of_mem {order : ByteOrder} {table : Span} {s : Symbol}
    (hs : s ∈ release.decodeTable image order table) :
    ∃ offset ∈ table.slots release.recordSize,
      release.decode? image order offset = some s.unmeasured := by
  have hmem := (release.decodeTable_perm image order table).mem_iff.1
    (List.mem_map_of_mem (f := Symbol.unmeasured) hs)
  obtain ⟨t, ht, heq⟩ := List.mem_map.1 hmem
  obtain ⟨offset, hslot, hdecoded⟩ := List.mem_filterMap.1 ht
  rw [Symbol.unmeasured_of_nameLength (decode?_eq_some_iff.1 hdecoded).2.1] at heq
  exact ⟨offset, hslot, heq ▸ hdecoded⟩

/-- Each slot whose record the image has all of gives a symbol of its own place. -/
theorem map_offset_decode (release : Release) (image : Image) (order : ByteOrder) (slots : List Nat) :
    (slots.filterMap (release.decode? image order)).map Symbol.offset =
      slots.filter fun offset => offset + release.recordSize ≤ image.size := by
  rw [List.map_filterMap, ← List.filterMap_eq_filter]
  refine List.filterMap_congr fun offset _ => ?_
  by_cases hfits : offset + release.recordSize ≤ image.size
  · obtain ⟨s, hs⟩ := exists_symbol order hfits
    rw [hs, Option.map_some, (decode?_eq_some_iff.1 hs).1, Option.guard,
      if_pos (decide_eq_true hfits)]
  · have hnone : release.decode? image order offset = none :=
      Option.not_isSome_iff_eq_none.1 (mt isSome_decode?_iff.1 hfits)
    rw [hnone, Option.map_none, Option.guard, if_neg (mt of_decide_eq_true hfits)]

/-- The symbols of a table are at the slots whose records the image has all of, one at each. -/
theorem offset_perm_decodeTable (release : Release) (image : Image) (order : ByteOrder)
    (table : Span) :
    ((release.decodeTable image order table).map Symbol.offset).Perm
      ((table.slots release.recordSize).filter fun offset =>
        offset + release.recordSize ≤ image.size) := by
  have hperm := (release.decodeTable_perm image order table).map Symbol.offset
  rw [List.map_map, List.map_map] at hperm
  have hoffset : Symbol.offset ∘ Symbol.unmeasured = Symbol.offset := rfl
  rw [hoffset, map_offset_decode] at hperm
  exact hperm

/-! ## The first table -/

variable {minRun : Nat} {table : Span}

theorem IsFirstTable.recordAt_slot (h : release.IsFirstTable image minRun table) {offset : Nat}
    (hslot : offset ∈ table.slots release.recordSize) : release.recordAt image offset = true := by
  obtain ⟨hlt, k, rfl⟩ := Span.mem_slots_iff.1 hslot
  have hpos := release.recordSize_pos
  rw [show max release.recordSize 1 = release.recordSize by omega, Nat.mul_comm] at hlt ⊢
  exact h.records k hlt

/-- The first table has as many slots as records fit into it, and enough of them. -/
theorem IsFirstTable.length_slots (h : release.IsFirstTable image minRun table) :
    (table.slots release.recordSize).length = table.length / release.recordSize ∧
      release.recordSize ∣ table.length ∧ minRun ≤ table.length / release.recordSize := by
  obtain ⟨count, hcount, hstop⟩ := h.whole
  have hpos := release.recordSize_pos
  have htable : table = ⟨table.start, table.start + count * release.recordSize⟩ := by
    rw [← hstop]
  have hlength : table.length = count * release.recordSize := by
    rw [Span.length, hstop, Nat.add_sub_cancel_left]
  rw [hlength, Nat.mul_div_cancel _ hpos]
  refine ⟨?_, Nat.dvd_mul_left _ _, hcount⟩
  rw [htable, Span.slots_whole hpos, List.length_range']

/-- The symbols of the first table are at its slots, one at each. -/
theorem IsFirstTable.offset_perm (h : release.IsFirstTable image minRun table)
    (order : ByteOrder) :
    ((release.decodeTable image order table).map Symbol.offset).Perm
      (table.slots release.recordSize) := by
  have hall : (table.slots release.recordSize).filter (fun offset =>
      offset + release.recordSize ≤ image.size) = table.slots release.recordSize :=
    List.filter_eq_self.2 fun _ hslot => decide_eq_true (fits_of_recordAt (h.recordAt_slot hslot))
  have hperm := release.offset_perm_decodeTable image order table
  rwa [hall] at hperm

/-- Each symbol of the first table is one that a record may hold. -/
theorem IsFirstTable.admits_symbols (h : release.IsFirstTable image minRun table)
    {order : ByteOrder} {s : Symbol} (hs : s ∈ release.decodeTable image order table) :
    release.Admits s := by
  obtain ⟨offset, hslot, hdecoded⟩ := exists_slot_of_mem hs
  obtain ⟨found, hfound, _, _, hadmits⟩ :=
    exists_symbol_of_recordAt order (h.recordAt_slot hslot)
  rw [hdecoded] at hfound
  cases hfound
  exact hadmits.of_unmeasured

end Release

end FirmwareSymbols
