import FirmwareSymbols.Proofs.FirstTable
import FirmwareSymbols.Symbol.Order

/-!
# Where the scan and the detection agree on the byte order

The scan accepts a 5.x run if one half of the name addresses, and one
only, is the same in all of its records. The detection looks at the first
two records alone and gives the first half precedence. The first half of
two records is equal wherever it is equal in the whole run, so a run that
is steady there is taken for big endian. A run that is steady in the
second half is taken for little endian unless its first two records agree
in the first half as well, that is, unless they name the same address.

## Main results

* `Release.detectOrder_eq`: the detection at two records, in one equation.
* `Release.detectOrder_of_startsRun`: when it agrees with the scan.
* `Release.detectOrder_twinNames`: where it does not.
-/

namespace FirmwareSymbols

namespace Release

variable {release : Release} {image : Image}

/-! ## Halves of two records -/

theorem KeepsHalf.mono {distance offset m n : Nat} (h : release.KeepsHalf image distance offset n)
    (hle : m ≤ n) : release.KeepsHalf image distance offset m := by
  intro k hk
  exact h k (Nat.lt_of_lt_of_le hk hle)

/-- Two records agree in a half if the two bytes at its place are equal. -/
theorem keepsHalf_two_iff {distance offset : Nat} :
    release.KeepsHalf image distance offset 2 ↔
      image.window (offset + distance) 2 =
        image.window (offset + release.recordSize + distance) 2 := by
  constructor
  · intro h
    have hsecond := h 1 (by decide)
    rw [Nat.one_mul] at hsecond
    exact hsecond.symm
  · intro h k hk
    cases k with
    | zero => rw [Nat.zero_mul, Nat.add_zero]
    | succ k =>
        obtain rfl : k = 0 := by omega
        rw [Nat.zero_add, Nat.one_mul]
        exact h.symm

/-- Two records agree in both halves if their name addresses are stored alike. -/
theorem keepsHalf_both_iff {offset : Nat}
    (hfits : offset + 2 * release.recordSize ≤ image.size) :
    release.KeepsHalf image 4 offset 2 ∧ release.KeepsHalf image 6 offset 2 ↔
      image.window (offset + 4) 4 = image.window (offset + release.recordSize + 4) 4 := by
  have hsize := release.signatureSize_add_twelve_le
  have hfirst : (image.window (offset + 4) 2).length = 2 := Image.length_window (by omega)
  have hnext : (image.window (offset + release.recordSize + 4) 2).length = 2 :=
    Image.length_window (by omega)
  rw [keepsHalf_two_iff, keepsHalf_two_iff, image.window_append (offset + 4) 2 2,
    image.window_append (offset + release.recordSize + 4) 2 2]
  constructor
  · intro h
    rw [h.1]
    exact congrArg _ h.2
  · intro h
    exact List.append_inj h (hfirst.trans hnext.symm)

/-! ## The detection -/

theorem half?_eq_window {offset index distance : Nat} (hdistance : distance + 2 ≤ release.recordSize)
    (hfits : offset + (index + 1) * release.recordSize ≤ image.size) :
    release.half? image offset index distance =
      some (image.window (offset + index * release.recordSize + distance) 2) := by
  rw [Nat.succ_mul] at hfits
  exact if_pos (by omega)

/-- Where there are two records, the first halves of their name addresses decide. -/
theorem detectOrder_eq {offset : Nat} (hfits : offset + 2 * release.recordSize ≤ image.size) :
    release.detectOrder image offset =
      if image.window (offset + 4) 2 = image.window (offset + release.recordSize + 4) 2 then .big
      else .little := by
  have hsize := release.signatureSize_add_twelve_le
  have hhalf : ∀ index distance, index < 2 → distance + 2 ≤ release.recordSize →
      release.half? image offset index distance =
        some (image.window (offset + index * release.recordSize + distance) 2) := by
    intro index distance hindex hdistance
    have hrecords : (index + 1) * release.recordSize ≤ 2 * release.recordSize :=
      Nat.mul_le_mul_right _ hindex
    exact half?_eq_window hdistance (by omega)
  have hfirst : firstHalf + 2 ≤ release.recordSize := by unfold firstHalf; omega
  have hsecond : secondHalf + 2 ≤ release.recordSize := by unfold secondHalf; omega
  simp only [detectOrder, hhalf 0 _ Nat.two_pos hfirst, hhalf 1 _ Nat.one_lt_two hfirst,
    hhalf 0 _ Nat.two_pos hsecond, hhalf 1 _ Nat.one_lt_two hsecond, Nat.zero_mul, Nat.add_zero,
    Nat.one_mul]
  rfl

theorem detectOrder_eq_big_iff {offset : Nat}
    (hfits : offset + 2 * release.recordSize ≤ image.size) :
    release.detectOrder image offset = .big ↔ release.KeepsHalf image 4 offset 2 := by
  rw [keepsHalf_two_iff, detectOrder_eq hfits]
  split <;> simp [*]

/-- An accepted run of two or more records has room for the two that are compared. -/
theorem BeginsTable.fits_two {count offset : Nat} (h : release.BeginsTable image count offset)
    (hcount : 2 ≤ count) : offset + 2 * release.recordSize ≤ image.size := by
  have hsecond := fits_of_recordAt (h.records 1 (by omega))
  omega

/-! ## Agreement -/

/-- The detection agrees with the scan on a 5.x run that is steady in the first half, and on one that is
steady in the second half exactly if the first two records name different addresses. In a run of two
records they always do. -/
theorem detectOrder_of_startsRun {image : Image} {count offset : Nat} (hcount : 2 ≤ count)
    (hstarts : v5.startsRun image count offset = true) :
    (v5.KeepsHalf image 4 offset count → v5.detectOrder image offset = .big) ∧
    (v5.KeepsHalf image 6 offset count →
      (v5.detectOrder image offset = .little ↔
        image.window (offset + 4) 4 ≠ image.window (offset + 20) 4)) ∧
    (v5.KeepsHalf image 6 offset count → count = 2 → v5.detectOrder image offset = .little) := by
  have hbegins := startsRun_iff.1 hstarts
  have hfits := hbegins.fits_two hcount
  have hlittle : v5.detectOrder image offset = .little ↔ ¬ v5.KeepsHalf image 4 offset 2 := by
    rw [← detectOrder_eq_big_iff hfits]
    cases v5.detectOrder image offset <;> simp
  refine ⟨?_, ?_, ?_⟩
  · intro hfirst
    exact (detectOrder_eq_big_iff hfits).2 (hfirst.mono hcount)
  · intro hsecond
    have hboth := keepsHalf_both_iff hfits
    rw [hlittle]
    apply not_congr
    constructor
    · intro hfirst
      exact hboth.1 ⟨hfirst, hsecond.mono hcount⟩
    · intro hsame
      exact (hboth.2 hsame).1
  · rintro hsecond rfl
    rw [hlittle]
    intro hfirst
    -- the run test refuses a run that is steady in both halves
    rcases hbegins.half rfl with ⟨_, hnot⟩ | ⟨_, hnot⟩
    · exact hnot hsecond
    · exact hnot hfirst

/-! ## Two small tables -/

/-- A little endian record of a function whose name lies at an offset of a segment. -/
def functionRecord (low : UInt8) : List UInt8 :=
  [0x00, 0x00, 0x00, 0x00, low, 0x24, 0x00, 0x80, 0x00, 0x01, 0x00, 0x80, 0x00, 0x00, 0x05, 0x00]

/-- Three functions with names of their own. -/
def ownNames : Image := .ofList (functionRecord 0x10 ++ functionRecord 0x20 ++ functionRecord 0x30)

/-- Three functions of which the first two have one name. -/
def twinNames : Image := .ofList (functionRecord 0x10 ++ functionRecord 0x10 ++ functionRecord 0x20)

/-- Functions with names of their own are taken for little endian, as the scan has it. -/
theorem detectOrder_ownNames :
    2 ≤ 3 ∧ v5.startsRun ownNames 3 0 = true ∧ v5.KeepsHalf ownNames 6 0 3 ∧
      v5.detectOrder ownNames 0 = .little := by
  have hstarts : v5.startsRun ownNames 3 0 = true := by decide +kernel
  have hsecond : v5.KeepsHalf ownNames 6 0 3 := isSteady_iff.1 (by decide +kernel)
  have hnames : ownNames.window (0 + 4) 4 ≠ ownNames.window (0 + 20) 4 := by decide +kernel
  exact ⟨by decide, hstarts, hsecond,
    ((detectOrder_of_startsRun (by decide) hstarts).2.1 hsecond).2 hnames⟩

/-- The scan accepts a run that is steady in the second half only, and yet it is taken for big endian,
because its first two records have one name. -/
theorem detectOrder_twinNames :
    2 ≤ 3 ∧ v5.startsRun twinNames 3 0 = true ∧ v5.KeepsHalf twinNames 6 0 3 ∧
      v5.detectOrder twinNames 0 = .big ∧ v5.detectOrder twinNames 0 ≠ .little := by
  have hsecond : v5.KeepsHalf twinNames 6 0 3 := isSteady_iff.1 (by decide +kernel)
  exact ⟨by decide, by decide +kernel, hsecond, by decide +kernel, by decide +kernel⟩

end Release

end FirmwareSymbols
