import FirmwareSymbols.Proofs.Alignment
import FirmwareSymbols.Proofs.Checked.Scan
import FirmwareSymbols.Proofs.Exhaustion

/-!
# Decoding the symbols, step by step

The detection of the byte order and the decoder once more, with steps that
can be trapped. Their offsets are those of a table that lies in the image,
and the length of a name is the difference of two addresses of which the
later one is not smaller, because the symbols have been sorted.

## Main results

* `Checked.detectOrder_eq`: the detection.
* `Checked.measure_eq`, `Checked.decodeTable_eq`: the lengths of the names,
  and the decoder.
* `Checked.readSymbols_eq`: from the image to the symbols.
-/

namespace FirmwareSymbols

namespace Checked

variable {release : Release} {image : Image}

/-! ## The byte order -/

/-- Two bytes of a record behind an offset, if the image has them. -/
def half? (release : Release) (image : Image) (start index distance : Nat) :
    Checked (Option (List UInt8)) := do
  let skipped ← mul index release.recordSize
  let record ← add start skipped
  let low ← add record distance
  let high ← add low 2
  .ok (slice? image low high)

/-- The byte order of the table that begins at an offset. -/
def detectOrder (release : Release) (image : Image) (start : Nat) : Checked ByteOrder := do
  let first ← half? release image start 0 4
  let next ← half? release image start 1 4
  let second ← half? release image start 0 6
  let nextSecond ← half? release image start 1 6
  .ok <|
    match first, next, second, nextSecond with
    | some first, some next, some _, some _ => if first = next then .big else .little
    | _, _, _, _ => .little

/-- The byte order of the settings, or else the one that is detected. -/
def orderOf (config : Config) (image : Image) (start : Nat) : Checked ByteOrder :=
  match config.byteOrder with
  | some order => .ok order
  | none => detectOrder config.release image start

theorem half?_eq (hsize : image.size < sliceLimit) {start index distance : Nat}
    (hstart : start ≤ image.size) (hindex : index < 2) (hdistance : distance ≤ 6) :
    half? release image start index distance = .ok (release.half? image start index distance) := by
  have hroom := room
  have hrecord : release.recordSize ≤ 20 := by cases release <;> decide
  have hskipped : index * release.recordSize ≤ 1 * 20 := Nat.mul_le_mul (by omega) hrecord
  rw [half?, mul_eq (by omega), ok_bind, add_eq (by omega), ok_bind, add_eq (by omega), ok_bind,
    add_eq (by omega), ok_bind, Release.half?, slice?, Nat.add_sub_cancel_left]
  simp only [Nat.le_add_right, true_and]

theorem detectOrder_eq (hsize : image.size < sliceLimit) (release : Release) {start : Nat}
    (hstart : start ≤ image.size) :
    detectOrder release image start = .ok (release.detectOrder image start) := by
  have hhalf : ∀ index distance, index < 2 → distance ≤ 6 →
      half? release image start index distance =
        .ok (release.half? image start index distance) :=
    fun _ _ hindex hdistance => half?_eq hsize hstart hindex hdistance
  rw [detectOrder, hhalf 0 4 (by decide) (by decide), ok_bind, hhalf 1 4 (by decide) (by decide),
    ok_bind, hhalf 0 6 (by decide) (by decide), ok_bind, hhalf 1 6 (by decide) (by decide), ok_bind]
  rfl

theorem orderOf_eq (hsize : image.size < sliceLimit) (config : Config) {start : Nat}
    (hstart : start ≤ image.size) :
    orderOf config image start =
      .ok (config.byteOrder.getD (config.release.detectOrder image start)) := by
  unfold orderOf
  cases config.byteOrder with
  | some order => rfl
  | none => exact detectOrder_eq hsize config.release hstart

/-! ## Records -/

/-- The word stored at an offset, if it is there. -/
def word? (image : Image) (order : ByteOrder) (offset : Nat) : Option UInt32 :=
  match add? offset 4 with
  | some stop => (slice? image offset stop).bind order.word?
  | none => none

/-- The record at an offset. -/
def decode? (release : Release) (image : Image) (order : ByteOrder) (offset : Nat) :
    Checked (Option Symbol) := do
  let nameAt ← add offset 4
  match word? image order nameAt with
  | none => .ok none
  | some nameAddress => do
    let destAt ← add offset 8
    match word? image order destAt with
    | none => .ok none
    | some destAddress => do
      let stop ← add offset release.recordSize
      let flagsAt ← sub stop 4
      match word? image order flagsAt with
      | none => .ok none
      | some flags => do
        let stop ← add offset release.recordSize
        let typeAt ← sub stop 2
        match image.get? typeAt with
        | none => .ok none
        | some typeCode =>
          .ok (some { offset, nameAddress, destAddress, nameLength := none, flags, typeCode })

/-- The records at some offsets, without those that the image ends in the middle of. -/
def decodeSlots (release : Release) (image : Image) (order : ByteOrder) :
    List Nat → Checked (List Symbol)
  | [] => .ok []
  | offset :: rest => do
    let decoded ← decode? release image order offset
    let behind ← decodeSlots release image order rest
    .ok (decoded.toList ++ behind)

section Decode

variable (hsize : image.size < sliceLimit)

include hsize

theorem word?_eq (order : ByteOrder) (offset : Nat) :
    word? image order offset = image.word? order offset := by
  have hroom := room
  by_cases hfits : offset + 4 ≤ image.size
  · have hstop : add? offset 4 = some (offset + 4) := if_pos (by omega)
    rw [word?, hstop]
    show (slice? image offset (offset + 4)).bind _ = _
    rw [slice?_eq (by omega) hfits, Nat.add_sub_cancel_left]
    rfl
  · have hnone : image.word? order offset = none :=
      Option.not_isSome_iff_eq_none.1 (mt Image.isSome_word?_iff.1 hfits)
    rw [word?, hnone, add?]
    split
    · next stop hstop =>
        split at hstop
        · rw [← Option.some.inj hstop, slice?, if_neg (by omega)]
          rfl
        · cases hstop
    · rfl

theorem decode?_eq (release : Release) (order : ByteOrder) {offset : Nat}
    (hoffset : offset ≤ image.size) :
    decode? release image order offset = .ok (release.decode? image order offset) := by
  have hroom := room
  have hrecord : release.recordSize ≤ 20 := by cases release <;> decide
  have hsigned := release.signatureSize_add_twelve_le
  rw [decode?, add_eq (by omega), ok_bind, word?_eq hsize, Release.decode?]
  cases image.word? order (offset + 4) with
  | none => rfl
  | some nameAddress =>
      show (add offset 8 >>= fun destAt => _) = _
      rw [add_eq (by omega), ok_bind, word?_eq hsize]
      cases image.word? order (offset + 8) with
      | none => rfl
      | some destAddress =>
          show (add offset release.recordSize >>= fun stop => _) = _
          rw [add_eq (by omega), ok_bind, sub_eq (by omega), ok_bind, word?_eq hsize]
          cases image.word? order (offset + release.recordSize - 4) with
          | none => rfl
          | some flags =>
              show (sub (offset + release.recordSize) 2 >>= fun typeAt => _) = _
              rw [sub_eq (by omega), ok_bind]
              cases image.get? (offset + release.recordSize - 2) <;> rfl

theorem decodeSlots_eq (release : Release) (order : ByteOrder) {slots : List Nat}
    (hslots : ∀ offset ∈ slots, offset ≤ image.size) :
    decodeSlots release image order slots =
      .ok (slots.filterMap (release.decode? image order)) := by
  induction slots with
  | nil => rfl
  | cons offset rest ih =>
      obtain ⟨hoffset, hrest⟩ := List.forall_mem_cons.1 hslots
      rw [decodeSlots, decode?_eq hsize release order hoffset, ok_bind, ih hrest, ok_bind,
        List.filterMap_cons]
      cases release.decode? image order offset <;> rfl

end Decode

/-! ## Lengths -/

/-- Sets the lengths of the names from the one before the `i`-th on. -/
def measure (i : Nat) (records : List Symbol) : Nat → Checked (List Symbol)
  | 0 => .ok records
  | left + 1 => do
    let next ← entry records i
    let place ← sub i 1
    let previous ← entry records place
    let length ← subAddress next.nameAddress previous.nameAddress
    measure (i + 1) (records.set place { previous with nameLength := some length }) left

/-- In a sorted list no difference of neighbouring addresses is negative. -/
theorem measure_eq {s : Symbol} {rest : List Symbol}
    (hsorted : (s :: rest).Pairwise fun s next => s.nameAddress ≤ next.nameAddress)
    (measured : List Symbol) :
    measure (measured.length + 1) (measured ++ s :: rest) rest.length =
      .ok (measured ++ Symbol.withLengths (s :: rest)) := by
  induction rest generalizing measured s with
  | nil => rfl
  | cons next rest ih =>
      obtain ⟨hfirst, hrest⟩ := List.pairwise_cons.1 hsorted
      have hle := hfirst next (List.mem_cons_self ..)
      have hnext : (measured ++ s :: next :: rest)[measured.length + 1]? = some next := by
        rw [List.getElem?_append_right (by omega), Nat.add_sub_cancel_left]
        rfl
      have hprevious : (measured ++ s :: next :: rest)[measured.length]? = some s := by
        rw [List.getElem?_append_right (Nat.le_refl _), Nat.sub_self]
        rfl
      rw [List.length_cons, measure, entry_eq hnext, ok_bind, sub_eq (by omega), ok_bind,
        Nat.add_sub_cancel, entry_eq hprevious, ok_bind, subAddress_eq hle, ok_bind,
        List.set_append_right _ _ (Nat.le_refl _), Nat.sub_self, List.set_cons_zero]
      have hmore := ih hrest
        (measured ++ [{ s with nameLength := some (next.nameAddress - s.nameAddress) }])
      rw [List.length_append, List.append_assoc, List.append_assoc] at hmore
      exact hmore

/-- The records of a span, sorted by the address of their names and measured. -/
def decodeTable (release : Release) (image : Image) (order : ByteOrder) (table : Span) :
    Checked (List Symbol) := do
  let records ← decodeSlots release image order (table.slots release.recordSize)
  let sorted := Symbol.sortByName records
  measure 1 sorted (sorted.length - 1)

/-- The symbol table of an image. -/
def readSymbols (config : Config) (image : Image) (budget : Budget) :
    Checked (Except Fault (Option SymbolTable)) := do
  let found ← findTable config image budget
  match found with
  | .error fault => .ok (.error fault)
  | .ok none => .ok (.ok none)
  | .ok (some extent) => do
    let order ← orderOf config image extent.start
    let symbols ← decodeTable config.release image order extent
    .ok (.ok (some ⟨extent, order, symbols⟩))

section Decode

variable (hsize : image.size < sliceLimit)

include hsize

theorem decodeTable_eq (release : Release) (order : ByteOrder) {table : Span}
    (htable : table.stop ≤ image.size) :
    decodeTable release image order table = .ok (release.decodeTable image order table) := by
  have hslots : ∀ offset ∈ table.slots release.recordSize, offset ≤ image.size := by
    intro offset hslot
    have hlt := (Span.mem_slots_iff.1 hslot).1
    omega
  rw [decodeTable, decodeSlots_eq hsize release order hslots, ok_bind, Release.decodeTable]
  have hsorted := Symbol.pairwise_sortByName
    ((table.slots release.recordSize).filterMap (release.decode? image order))
  generalize Symbol.sortByName
    ((table.slots release.recordSize).filterMap (release.decode? image order)) = sorted at hsorted ⊢
  cases sorted with
  | nil => rfl
  | cons s rest => exact measure_eq hsorted []

/-- A table that was found lies in the image, whatever the budget. -/
theorem readSymbols_eq (config : Config) (budget : Budget) :
    readSymbols config image budget = .ok (config.readSymbols image budget) := by
  rw [readSymbols, findTable_eq hsize, ok_bind, Config.readSymbols_eq_bind]
  cases hfound : config.findTable image budget with
  | error fault => rfl
  | ok hit =>
      cases hit with
      | none => rfl
      | some extent =>
          have hunlimited := (Budget.keeps_findTable config image).eq_ok hfound
          have hfirst := (Config.findTable_eq_some_iff.1 hunlimited).2
          have hinside := hfirst.inside
          obtain ⟨count, _, hstop⟩ := hfirst.whole
          show (orderOf config image extent.start >>= fun order => _) = _
          rw [orderOf_eq hsize config (by omega), ok_bind,
            decodeTable_eq hsize config.release _ hinside, ok_bind]
          rfl

end Decode

end Checked

end FirmwareSymbols
