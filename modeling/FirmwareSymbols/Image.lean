import FirmwareSymbols.Offset
import FirmwareSymbols.Span
import FirmwareSymbols.Word

/-!
# Firmware images

An `Image` is a raw, headerless sequence of bytes; an offset is an index
into it. Reads outside the image have no value rather than a default, so
no question about an image can be answered from bytes it does not have.

## Main definitions

* `Image.get?`, `Image.window`, `Image.word?`: a byte, a block of bytes
  and a stored word at an offset.
* `Image.cString?`: the bytes from an offset up to the next null.
* `Image.stringFrom?`, `Image.stringBefore?`: the nearest null-free run
  after and before an offset.

## Main results

* `Image.length_window`: a window inside the image is as long as asked.
* `Image.stringWithin?_bounds`, `Image.stringBefore?_start_lt`: a run that
  was found is not empty and lies where the search looked, so a walk from
  run to run makes progress.
-/

namespace FirmwareSymbols

/-- A raw firmware image. -/
structure Image where
  /-- The bytes, in order. -/
  bytes : Array UInt8
deriving DecidableEq

namespace Image

/-- The image with the given bytes. -/
def ofList (bytes : List UInt8) : Image := ⟨bytes.toArray⟩

/-- The bytes of the image. -/
def toList (image : Image) : List UInt8 := image.bytes.toList

@[simp] theorem toList_ofList (bytes : List UInt8) : (ofList bytes).toList = bytes := rfl

/-- Number of bytes. -/
def size (image : Image) : Nat := image.bytes.size

/-- The byte at an offset. -/
def get? (image : Image) (offset : Nat) : Option UInt8 := image.bytes[offset]?

/-- The bytes of `[offset, offset + count)` as far as the image has them. -/
def window (image : Image) (offset count : Nat) : List UInt8 :=
  (image.bytes.extract offset (offset + count)).toList

/-- The bytes of a span. -/
def slice (image : Image) (s : Span) : List UInt8 := image.window s.start s.length

/-- The word stored at an offset. -/
def word? (image : Image) (order : ByteOrder) (offset : Nat) : Option UInt32 :=
  order.word? (image.window offset 4)

/-- How an image is shown when its bytes are too many to show. -/
def summary (image : Image) : String :=
  "FirmwareImage \x7b len: " ++ toString image.size ++ " \x7d"

theorem window_eq (image : Image) (offset count : Nat) :
    image.window offset count = (image.toList.drop offset).take count := by
  simp [window, toList, Array.toList_extract, List.extract]

/-- A window inside the image is as long as asked. -/
theorem length_window {image : Image} {offset count : Nat} (inside : offset + count ≤ image.size) :
    (image.window offset count).length = count := by
  have : image.toList.length = image.size := rfl
  rw [window_eq, List.length_take, List.length_drop]
  omega

/-- A word is read wherever the image has four bytes. -/
theorem isSome_word?_iff {image : Image} {order : ByteOrder} {offset : Nat} :
    (image.word? order offset).isSome ↔ offset + 4 ≤ image.size := by
  have hsize : image.toList.length = image.size := rfl
  rw [word?, ByteOrder.word?_isSome_iff, window_eq, List.length_take, List.length_drop]
  omega

/-- The bytes of a window are those of the image from its offset on. -/
theorem getElem?_window (image : Image) (offset count k : Nat) :
    (image.window offset count)[k]? = if k < count then image.get? (offset + k) else none := by
  have hbyte : image.get? (offset + k) = image.toList[offset + k]? := Array.getElem?_toList.symm
  rw [window_eq, List.getElem?_take, List.getElem?_drop, hbyte]

/-- Neighbouring windows make up one window. -/
theorem window_append (image : Image) (offset m n : Nat) :
    image.window offset (m + n) = image.window offset m ++ image.window (offset + m) n := by
  simp only [window_eq]
  rw [List.take_add, List.drop_drop]

/-! ## Null-free runs -/

/-- Whether the image has a null byte at an offset. -/
def isNull (image : Image) (offset : Nat) : Bool :=
  match image.get? offset with
  | some byte => byte == 0
  | none => false

/-- Whether the image has a byte other than null at an offset. -/
def isText (image : Image) (offset : Nat) : Bool :=
  match image.get? offset with
  | some byte => byte != 0
  | none => false

theorem lt_size_of_isText {image : Image} {offset : Nat} (h : image.isText offset = true) :
    offset < image.size := by
  unfold isText get? at h
  by_cases hlt : offset < image.size
  · exact hlt
  · rw [Array.getElem?_eq_none (by unfold size at hlt; omega)] at h
    simp at h

/-- The first offset of `[lo, hi)` with a property. The search never leaves the image. -/
def firstWithin (image : Image) (p : Nat → Bool) (lo hi : Nat) : Option Nat :=
  leastFrom p lo (min hi image.size - lo)

/-- The first null of `[lo, hi)`, or `hi` if there is none. -/
def terminator (image : Image) (lo hi : Nat) : Nat :=
  (image.firstWithin image.isNull lo hi).getD hi

/-- The first null-free run of `[lo, hi)`: it begins at the first byte other than null and ends before
the first null behind that byte, or at `hi`. -/
def stringWithin? (image : Image) (lo hi : Nat) : Option Span :=
  (image.firstWithin image.isText lo hi).map fun start => ⟨start, image.terminator start hi⟩

/-- The first null-free run at or after an offset. An offset inside a run cuts the run's beginning
off. -/
def stringFrom? (image : Image) (offset : Nat) : Option Span :=
  image.stringWithin? offset image.size

/-- The last null-free run that begins below a bound, whole even if it reaches beyond the bound. -/
def stringBefore? (image : Image) (bound : Nat) : Option Span :=
  (greatestBelow image.isText (min bound image.size)).map fun last =>
    ⟨(greatestBelow image.isNull last).elim 0 (· + 1), image.terminator last image.size⟩

/-- The last null-free run that begins at or before an offset, or before the end of the image if the
offset lies beyond it. -/
def stringAt? (image : Image) (offset : Nat) : Option Span :=
  image.stringBefore? (offset + 1)

/-- The bytes from an offset up to the next null, or up to the end of the image if no null follows.
There are none at an offset outside the image; its end counts as inside. -/
def cString? (image : Image) (offset : Nat) : Option (List UInt8) :=
  if offset ≤ image.size then
    some (image.slice ⟨offset, image.terminator offset image.size⟩)
  else
    none

theorem firstWithin_bounds {image : Image} {p : Nat → Bool} {lo hi o : Nat}
    (h : image.firstWithin p lo hi = some o) : lo ≤ o ∧ o < hi ∧ o < image.size ∧ p o = true := by
  obtain ⟨hlo, hlt, hp, _⟩ := leastFrom_eq_some_iff.1 h
  exact ⟨hlo, by omega, by omega, hp⟩

/-- The terminator of a position that is not null lies behind it. -/
theorem lt_terminator {image : Image} {lo hi : Nat} (text : image.isText lo = true) (h : lo < hi) :
    lo < image.terminator lo hi := by
  unfold terminator
  cases hf : image.firstWithin image.isNull lo hi with
  | none => simpa using h
  | some o =>
    obtain ⟨hlo, _, _, ho⟩ := firstWithin_bounds hf
    by_cases heq : lo = o
    · subst heq
      unfold isNull at ho
      unfold isText at text
      cases hb : image.get? lo with
      | none => simp [hb] at ho
      | some byte => simp_all
    · simp only [Option.getD_some]; omega

theorem terminator_le {image : Image} {lo hi : Nat} : image.terminator lo hi ≤ hi := by
  unfold terminator
  cases hf : image.firstWithin image.isNull lo hi with
  | none => simp
  | some o => exact Nat.le_of_lt (firstWithin_bounds hf).2.1

theorem le_terminator {image : Image} {lo hi : Nat} (h : lo ≤ hi) : lo ≤ image.terminator lo hi := by
  unfold terminator
  cases hf : image.firstWithin image.isNull lo hi with
  | none => simpa using h
  | some o => exact (firstWithin_bounds hf).1

/-- A run that was found upward is not empty and lies where the search looked. -/
theorem stringWithin?_bounds {image : Image} {lo hi : Nat} {s : Span}
    (h : image.stringWithin? lo hi = some s) : lo ≤ s.start ∧ s.start < s.stop ∧ s.stop ≤ hi := by
  obtain ⟨o, ho, rfl⟩ := Option.map_eq_some_iff.1 h
  obtain ⟨hlo, hhi, _, text⟩ := firstWithin_bounds ho
  exact ⟨hlo, lt_terminator text hhi, terminator_le⟩

theorem stringFrom?_bounds {image : Image} {offset : Nat} {s : Span}
    (h : image.stringFrom? offset = some s) :
    offset ≤ s.start ∧ s.start < s.stop ∧ s.stop ≤ image.size :=
  stringWithin?_bounds h

/-- A run that was found downward begins below the bound of the search. -/
theorem stringBefore?_start_lt {image : Image} {bound : Nat} {s : Span}
    (h : image.stringBefore? bound = some s) : s.start < bound := by
  obtain ⟨last, hlast, rfl⟩ := Option.map_eq_some_iff.1 h
  obtain ⟨hlt, _, _⟩ := greatestBelow_eq_some_iff.1 hlast
  cases hn : greatestBelow image.isNull last with
  | none => simp only [Option.elim_none]; omega
  | some o =>
    obtain ⟨ho, _, _⟩ := greatestBelow_eq_some_iff.1 hn
    simp only [Option.elim_some]; omega

end Image

end FirmwareSymbols
