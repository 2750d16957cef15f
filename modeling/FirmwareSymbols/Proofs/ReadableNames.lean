import FirmwareSymbols.Host
import FirmwareSymbols.Proofs.NullFreeRun

/-!
# Names that can be read

A symbol says at which address its name is loaded. Where the image is
loaded tells where in the image the name stands, if it stands there at
all: it may lie below the image or behind it, be empty, or run on to the
end of the image.

## Main results

* `Symbol.name?_eq_some_iff`: the name that is read.
* `Symbol.name?_eq_none_iff`: when none can be read.
-/

namespace FirmwareSymbols

namespace Symbol

variable {s : Symbol} {image : Image} {load : UInt32}

/-- The name of a symbol stands in an image that is loaded at an address: it is not empty, and a null
ends it. -/
structure NamedAt (s : Symbol) (image : Image) (load : UInt32) (stored : Span) : Prop where
  address : s.nameAddress.toNat = load.toNat + stored.start
  nonempty : stored.start < stored.stop
  text : image.AllText stored.start stored.stop
  terminated : image.isNull stored.stop = true

/-- The name of a symbol as text. What is not UTF-8 in it has been replaced. -/
def HasName (s : Symbol) (image : Image) (load : UInt32) (name : String) : Prop :=
  ∃ stored, s.NamedAt image load stored ∧ name = Utf8.decodeLossy (image.slice stored)

/-- No name can be read: its address lies below the load address or outside the image, or it is empty,
or no null of the image ends it. -/
def Unreadable (s : Symbol) (image : Image) (load : UInt32) : Prop :=
  s.nameAddress.toNat < load.toNat ∨
    ∃ offset, s.nameAddress.toNat = load.toNat + offset ∧
      (image.size ≤ offset ∨ image.isNull offset = true ∨
        ∀ k, offset ≤ k → image.isNull k = false)

theorem nameOffset?_eq_some_iff {offset : Nat} :
    s.nameOffset? load = some offset ↔ s.nameAddress.toNat = load.toNat + offset := by
  unfold nameOffset?
  by_cases hle : load ≤ s.nameAddress
  · have hnat := UInt32.le_iff_toNat_le.1 hle
    rw [if_pos hle, Option.some.injEq]
    omega
  · have hnat : s.nameAddress.toNat < load.toNat :=
      Nat.lt_of_not_le fun hge => hle (UInt32.le_iff_toNat_le.2 hge)
    rw [if_neg hle]
    simp only [reduceCtorEq, false_iff]
    omega

/-- A name is read up to its terminator, which must lie behind its beginning and in the image. -/
theorem name?_of_address {offset : Nat} (h : s.nameAddress.toNat = load.toNat + offset) :
    s.name? image load =
      if offset < image.terminator offset image.size ∧
          image.terminator offset image.size < image.size then
        some (Utf8.decodeLossy (image.slice ⟨offset, image.terminator offset image.size⟩))
      else none := by
  have hstop : image.terminator offset image.size ≤ image.size := Image.terminator_le
  rw [name?, nameOffset?_eq_some_iff.2 h]
  simp only [Option.bind_eq_bind, Option.bind_some, Image.cString?]
  by_cases hin : offset ≤ image.size
  · have hstart : offset ≤ image.terminator offset image.size := Image.le_terminator hin
    have hlength : (image.slice ⟨offset, image.terminator offset image.size⟩).length =
        image.terminator offset image.size - offset :=
      Image.length_window (by simp only [Span.length]; omega)
    have hempty : (image.slice ⟨offset, image.terminator offset image.size⟩).isEmpty = true ↔
        image.terminator offset image.size = offset := by
      rw [List.isEmpty_iff_length_eq_zero, hlength]
      omega
    rw [if_pos hin, Option.bind_some, hlength]
    simp only [Bool.or_eq_true, hempty, beq_iff_eq]
    by_cases hok : offset < image.terminator offset image.size ∧
        image.terminator offset image.size < image.size
    · rw [if_pos hok, if_neg (by omega)]
    · rw [if_neg hok, if_pos (by omega)]
  · rw [if_neg hin, if_neg (by omega)]
    rfl

theorem name?_eq_some_iff {name : String} :
    s.name? image load = some name ↔ s.HasName image load name := by
  constructor
  · intro h
    have hoffset : ∃ offset, s.nameOffset? load = some offset := by
      cases hoffset : s.nameOffset? load with
      | none =>
          rw [name?, hoffset] at h
          cases h
      | some offset => exact ⟨offset, rfl⟩
    obtain ⟨offset, hoffset⟩ := hoffset
    have haddress := nameOffset?_eq_some_iff.1 hoffset
    rw [name?_of_address haddress] at h
    by_cases hok : offset < image.terminator offset image.size ∧
        image.terminator offset image.size < image.size
    · rw [if_pos hok] at h
      obtain ⟨_, _, htext, hclose⟩ :=
        (Image.terminator_eq_iff (by omega) (Nat.le_refl _)).1
          (rfl : image.terminator offset image.size = _)
      refine ⟨⟨offset, image.terminator offset image.size⟩, ⟨haddress, hok.1, htext, ?_⟩,
        (Option.some.inj h).symm⟩
      exact hclose.resolve_left (Nat.ne_of_lt hok.2)
    · rw [if_neg hok] at h
      cases h
  · rintro ⟨⟨start, stop⟩, hnamed, rfl⟩
    have hstart : start < stop := hnamed.nonempty
    have hstop : stop < image.size := Image.lt_size_of_isNull hnamed.terminated
    have heq : image.terminator start image.size = stop :=
      (Image.terminator_eq_iff (by omega) (Nat.le_refl _)).2
        ⟨by omega, by omega, hnamed.text, .inr hnamed.terminated⟩
    rw [name?_of_address hnamed.address, heq, if_pos ⟨hstart, hstop⟩]

/-- A name that stands in the image can be read. -/
theorem NamedAt.not_unreadable {stored : Span} (h : s.NamedAt image load stored) :
    ¬ s.Unreadable image load := by
  have haddress := h.address
  have hnonempty := h.nonempty
  rintro (hbelow | ⟨offset, hoffset, hcases⟩)
  · omega
  · obtain rfl : offset = stored.start := by omega
    rcases hcases with houtside | hempty | hopen
    · have := Image.lt_size_of_isNull h.terminated
      omega
    · have htext := h.text _ (Nat.le_refl _) hnonempty
      rw [Image.isText_eq_false_of_isNull hempty] at htext
      cases htext
    · have hnull := h.terminated
      rw [hopen _ (Nat.le_of_lt hnonempty)] at hnull
      cases hnull

/-- A symbol whose name can be read has one. -/
theorem exists_hasName (h : ¬ s.Unreadable image load) :
    ∃ name, s.HasName image load name := by
  rw [Unreadable, not_or] at h
  obtain ⟨offset, haddress⟩ := Nat.exists_eq_add_of_le (Nat.le_of_not_lt h.1)
  have hcases : ¬ (image.size ≤ offset ∨ image.isNull offset = true ∨
      ∀ k, offset ≤ k → image.isNull k = false) :=
    fun hcases => h.2 ⟨offset, haddress, hcases⟩
  simp only [not_or] at hcases
  obtain ⟨hinside, hnonempty, hclosed⟩ := hcases
  obtain ⟨hge, _, htext, hclose⟩ :=
    (Image.terminator_eq_iff (show offset ≤ image.size by omega) (Nat.le_refl _)).1
      (rfl : image.terminator offset image.size = _)
  have hnull : image.isNull (image.terminator offset image.size) = true := by
    rcases hclose with hend | hnull
    · -- text up to the end of the image leaves no room for a null
      exfalso
      apply hclosed
      intro k hk
      by_cases hkNull : image.isNull k = true
      · have hkText := htext k hk (by rw [hend]; exact Image.lt_size_of_isNull hkNull)
        rw [Image.isText_eq_false_of_isNull hkNull] at hkText
        cases hkText
      · simpa using hkNull
    · exact hnull
  refine ⟨_, ⟨offset, image.terminator offset image.size⟩, ⟨haddress, ?_, htext, hnull⟩, rfl⟩
  apply Nat.lt_of_le_of_ne hge
  intro hsame
  rw [← hsame] at hnull
  exact hnonempty hnull

theorem name?_eq_none_iff : s.name? image load = none ↔ s.Unreadable image load := by
  constructor
  · intro hnone
    by_cases hunreadable : s.Unreadable image load
    · exact hunreadable
    · obtain ⟨name, hname⟩ := exists_hasName hunreadable
      rw [name?_eq_some_iff.2 hname] at hnone
      cases hnone
  · intro hunreadable
    cases hname : s.name? image load with
    | none => rfl
    | some name =>
        obtain ⟨_, hnamed, _⟩ := name?_eq_some_iff.1 hname
        exact absurd hunreadable hnamed.not_unreadable

end Symbol

end FirmwareSymbols
