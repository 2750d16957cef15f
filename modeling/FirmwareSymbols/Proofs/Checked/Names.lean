import FirmwareSymbols.Analysis
import FirmwareSymbols.Proofs.Checked.Extent

/-!
# Decoding the names, step by step

The decoder of the string table once more, with steps that can be trapped.
It reads below a bound that lies in the image. Where it finds text, the
end of the name lies behind the text and the next name behind that end, so
the length of an entry is never negative.

## Main results

* `Checked.nameStep_eq`, `Checked.namesWithin_eq`: the decoder.
* `Checked.readNames_eq`: from the image to the names.
-/

namespace FirmwareSymbols

namespace Image

variable {image : Image} {bound offset : Nat}

/-! ## The first entry -/

theorem namesFrom_eq (image : Image) (bound : Nat) (read : List Name) (offset : Nat) :
    image.namesFrom bound read offset =
      match image.name? offset bound with
      | none => read.reverse
      | some (name, next) => image.namesFrom bound (name :: read) next := by
  rw [namesFrom]
  split <;> simp only [*]

theorem name?_of_bound_le (h : bound ≤ offset) : image.name? offset bound = none := by
  have hempty : min bound image.size - offset = 0 := by omega
  rw [name?, stringWithin?, firstWithin, hempty]
  rfl

/-- A null in front of an entry is passed over. -/
theorem name?_of_isNull (hoffset : offset < bound) (hbound : bound ≤ image.size)
    (hnull : image.isNull offset = true) : image.name? (offset + 1) bound = image.name? offset bound := by
  have hcount : min bound image.size - offset = min bound image.size - (offset + 1) + 1 := by omega
  rw [name?, name?, stringWithin?, stringWithin?, firstWithin, firstWithin, hcount, leastFrom,
    if_neg (by rw [isText_eq_false_of_isNull hnull]; exact Bool.false_ne_true)]

/-- An entry begins at text. -/
theorem name?_of_isText (hoffset : offset < bound) (hbound : bound ≤ image.size)
    (htext : image.isText offset = true) :
    image.name? offset bound =
      let stop := image.terminator offset bound
      let next := image.nextText stop bound
      let last := if next = bound ∧ image.get? bound = some 0 then bound + 1 else next
      some (⟨offset, image.slice ⟨offset, stop⟩, last - offset⟩, next) := by
  have hcount : min bound image.size - offset = min bound image.size - (offset + 1) + 1 := by omega
  rw [name?, stringWithin?, firstWithin, hcount, leastFrom, if_pos htext]
  rfl

end Image

namespace Checked

variable {image : Image}

/-! ## The decoder -/

/-- The length of the entry at an address, given where the next one begins. The last entry of a span is
measured over its terminator. -/
def lengthOf (image : Image) (bound address next : Nat) : Checked Nat :=
  if next = bound ∧ image.get? bound = some 0 then do
    let stop ← add bound 1
    sub stop address
  else sub next address

/-- One step of the decoder: over a null or over an entry. -/
def nameStep (image : Image) (bound : Nat) :
    List Name × Nat → Checked (Step (List Name × Nat) (List Name))
  | (read, cursor) =>
    if cursor < bound then do
      let byte ← entry image.toList cursor
      if byte = 0 then do
        let next ← add cursor 1
        .ok (.again (read, next))
      else do
        let here ← slice image cursor bound
        let stop ← reach cursor bound (here.findIdx? (· == 0))
        let behind ← slice image stop bound
        let next ← reach stop bound (behind.findIdx? (· != 0))
        let length ← lengthOf image bound cursor next
        let bytes ← slice image cursor stop
        .ok (.again (⟨cursor, bytes, length⟩ :: read, next))
    else .ok (.done read.reverse)

/-- The entries of a span of the image, as far as the image goes. -/
def namesWithin (image : Image) (table : Span) : Checked (List Name) :=
  let bound := min table.stop image.size
  loop (fun state => bound - state.2) (nameStep image bound) ([], table.start)

/-- The string table of an image, with at least `required` entries. -/
def readNames (config : Config) (image : Image) (required : Nat) : Checked (Option StringTable) := do
  let found ← anchor? image config.anchorNames
  match found with
  | none => .ok none
  | some anchor => do
    let located ← locate (config.tableLimits required) image anchor.offset
    match located with
    | none => .ok none
    | some table => do
      let names ← namesWithin image table.extent
      .ok (some ⟨table.extent, names⟩)

section Decode

variable (hsize : image.size < sliceLimit)

include hsize

theorem lengthOf_eq {bound address next : Nat} (hbound : bound ≤ image.size)
    (haddress : address ≤ next) :
    lengthOf image bound address next =
      .ok ((if next = bound ∧ image.get? bound = some 0 then bound + 1 else next) - address) := by
  have hroom := room
  rw [lengthOf]
  split
  · rw [add_eq (by omega), ok_bind, sub_eq (by omega)]
  · exact sub_eq haddress

/-- What a step of the decoder does: it is not trapped, it moves up, and it does not change what the
decoder comes to. -/
theorem nameStep_eq {bound : Nat} (hbound : bound ≤ image.size) (state : List Name × Nat) :
    nameStep image bound state = .ok (.done (image.namesFrom bound state.1 state.2)) ∨
      ∃ next, nameStep image bound state = .ok (.again next) ∧
        bound - next.2 < bound - state.2 ∧ True ∧
        image.namesFrom bound next.1 next.2 = image.namesFrom bound state.1 state.2 := by
  have hroom := room
  obtain ⟨read, cursor⟩ := state
  by_cases hcursor : cursor < bound
  · have hlt : cursor < image.size := by omega
    have hbyte : image.toList[cursor]? = some image.bytes[cursor] :=
      List.getElem?_eq_getElem (show cursor < image.toList.length from hlt)
    have hget : image.get? cursor = some image.bytes[cursor] := Array.getElem?_eq_getElem hlt
    by_cases hzero : image.bytes[cursor] = 0
    · have hnull : image.isNull cursor = true := by
        rw [Image.isNull_iff, hget, hzero]
      refine .inr ⟨(read, cursor + 1), ?_, ?_, trivial, ?_⟩
      · rw [nameStep, if_pos hcursor, entry_eq hbyte, ok_bind, if_pos hzero, add_eq (by omega),
          ok_bind]
      · show bound - (cursor + 1) < bound - cursor
        omega
      · show image.namesFrom bound read (cursor + 1) = image.namesFrom bound read cursor
        rw [Image.namesFrom_eq, Image.namesFrom_eq image bound read cursor,
          Image.name?_of_isNull hcursor hbound hnull]
    · have htext : image.isText cursor = true := by
        rw [isText_eq_any, hget]
        simpa using hzero
      obtain ⟨stop, hstop⟩ : ∃ stop, image.terminator cursor bound = stop := ⟨_, rfl⟩
      obtain ⟨next, hnext⟩ : ∃ next, image.nextText stop bound = next := ⟨_, rfl⟩
      have hlow : cursor < stop := hstop ▸ Image.lt_terminator htext hcursor
      have hhigh : stop ≤ bound := ((Image.terminator_eq_iff (Nat.le_of_lt hcursor) hbound).1 hstop).2.1
      obtain ⟨hnextLow, hnextHigh, _⟩ := (Image.nextText_eq_iff hhigh hbound).1 hnext
      have hentry := Image.name?_of_isText hcursor hbound htext
      dsimp only at hentry
      rw [hstop, hnext] at hentry
      refine .inr ⟨(⟨cursor, image.slice ⟨cursor, stop⟩,
        (if next = bound ∧ image.get? bound = some 0 then bound + 1 else next) - cursor⟩ :: read,
        next), ?_, ?_, trivial, ?_⟩
      · rw [nameStep, if_pos hcursor, entry_eq hbyte, ok_bind, if_neg hzero,
          slice_eq (Nat.le_of_lt hcursor) hbound, ok_bind,
          reach_null (Nat.le_of_lt hcursor) hbound hsize, ok_bind, hstop, slice_eq hhigh hbound,
          ok_bind, reach_text hhigh hbound hsize, ok_bind, hnext,
          lengthOf_eq hsize hbound (by omega), ok_bind,
          slice_eq (Nat.le_of_lt hlow) (by omega), ok_bind]
        rfl
      · show bound - next < bound - cursor
        omega
      · show image.namesFrom bound (_ :: read) next = image.namesFrom bound read cursor
        rw [Image.namesFrom_eq image bound read cursor, hentry]
  · left
    rw [nameStep, if_neg hcursor, Image.namesFrom_eq, Image.name?_of_bound_le (Nat.le_of_not_lt hcursor)]

theorem namesWithin_eq (table : Span) :
    namesWithin image table = .ok (image.namesWithin table) :=
  loop_eq (fun _ => True) _ (fun state _ => nameStep_eq hsize (Nat.min_le_right _ _) state) trivial

theorem readNames_eq (config : Config) (required : Nat)
    (hnames : ∀ name ∈ config.anchorNames, (Utf8.encode name).length < sliceLimit) :
    readNames config image required = .ok (config.readNames image required) := by
  rw [readNames, anchor?_eq hsize hnames, ok_bind, Config.readNames]
  cases image.anchor? config.anchorNames with
  | none => rfl
  | some anchor =>
      show (locate (config.tableLimits required) image anchor.offset >>= fun located => _) = _
      rw [locate_eq hsize, ok_bind]
      show _ = Except.ok (((config.tableLimits required).locate image anchor.offset).bind _)
      cases (config.tableLimits required).locate image anchor.offset with
      | none => rfl
      | some table =>
          show (namesWithin image table.extent >>= fun names => _) = _
          rw [namesWithin_eq hsize]
          rfl

end Decode

end Checked

end FirmwareSymbols
