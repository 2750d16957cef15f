import FirmwareSymbols.Proofs.DetectedOrder

/-!
# The record in front of a table

The end of a table is found record by record, but its beginning is the
first offset that passes the run test. For 5.x that test asks more than
records in a row: the names of the run must share exactly one half of their
addresses. So a record may stand in front of a table and not belong to it,
and this file says exactly when: its name lies outside the segment that the
names behind it share, or the first names of the run are all the same and
leave it open which half they share.

## Main results

* `Release.beginsTable_front_iff`: when the run test accepts one record
  more in front.
* `Config.front_of_findTable`: what a record in front of a table is like.
* `Config.findTable_farName`: a table with such a record.
-/

namespace FirmwareSymbols

namespace Release

variable {image : Image}

/-! ## Runs that begin one record earlier -/

/-- A run that keeps a half from its second record on keeps it from the first one on if the first two
records agree there. -/
theorem KeepsHalf.front {release : Release} {distance front count : Nat}
    (h : release.KeepsHalf image distance (front + release.recordSize) count)
    (hnext : image.window (front + distance) 2 =
      image.window (front + release.recordSize + distance) 2) :
    release.KeepsHalf image distance front count := by
  intro k hk
  cases k with
  | zero => rw [Nat.zero_mul, Nat.add_zero]
  | succ k =>
      have hplace : front + (k + 1) * release.recordSize =
          front + release.recordSize + k * release.recordSize := by
        rw [Nat.succ_mul]
        omega
      rw [hplace, h k (by omega), hnext]

/-- Both halves are kept exactly if the whole name addresses are stored alike. -/
theorem keepsHalves_iff {front count : Nat}
    (hfits : ∀ k, k < count → front + k * v5.recordSize + v5.recordSize ≤ image.size) :
    v5.KeepsHalf image 4 front count ∧ v5.KeepsHalf image 6 front count ↔
      ∀ k, k < count →
        image.window (front + k * v5.recordSize + 4) 4 = image.window (front + 4) 4 := by
  have hsize : v5.recordSize = 16 := rfl
  have hparts : ∀ offset, image.window (offset + 4) 4 =
      image.window (offset + 4) 2 ++ image.window (offset + 6) 2 :=
    fun offset => image.window_append (offset + 4) 2 2
  constructor
  · rintro ⟨hfirst, hsecond⟩ k hk
    rw [hparts, hparts, hfirst k hk, hsecond k hk]
  · intro hsame
    have hhalves : ∀ k, k < count →
        image.window (front + k * v5.recordSize + 4) 2 = image.window (front + 4) 2 ∧
          image.window (front + k * v5.recordSize + 6) 2 = image.window (front + 6) 2 := by
      intro k hk
      have hwhole := hsame k hk
      rw [hparts, hparts] at hwhole
      have hroom := hfits k hk
      have hzero := hfits 0 (by omega)
      have hlength : (image.window (front + k * v5.recordSize + 4) 2).length =
          (image.window (front + 4) 2).length := by
        rw [Image.length_window (by omega), Image.length_window (by omega)]
      exact List.append_inj hwhole hlength
    exact ⟨fun k hk => (hhalves k hk).1, fun k hk => (hhalves k hk).2⟩

/-! ## Records that a run leaves out -/

/-- Why a record does not belong to the 5.x run of `count` records that begins behind it. -/
inductive LeftOut (image : Image) (count front : Nat) : Prop where
  /-- The run of `count` records from that record on names one address only, so nothing tells the
  halves apart. -/
  | oneName
    (same : ∀ k, k < count →
      image.window (front + k * v5.recordSize + 4) 4 = image.window (front + 4) 4)
  /-- The name does not lie in the segment that the names behind it share, and with it the other half is
  not shared either. -/
  | farName (steady other : Nat)
    (halves : (steady = 4 ∧ other = 6) ∨ (steady = 6 ∧ other = 4))
    (shared : v5.KeepsHalf image steady (front + v5.recordSize) count)
    (far : image.window (front + steady) 2 ≠ image.window (front + v5.recordSize + steady) 2)
    (loose : ¬ v5.KeepsHalf image other front count)

/-- A record in front of a run does not change that the run holds records only. -/
theorem recordAt_front {release : Release} {count front : Nat}
    (hrecord : release.recordAt image front = true)
    (h : release.BeginsTable image count (front + release.recordSize)) :
    ∀ k, k < count → release.recordAt image (front + k * release.recordSize) = true := by
  intro k hk
  cases k with
  | zero => rwa [Nat.zero_mul, Nat.add_zero]
  | succ k =>
      have hnext := h.records k (by omega)
      rwa [Nat.add_assoc, Nat.add_comm release.recordSize, ← Nat.succ_mul] at hnext

/-- If neither half is shared from a record on, the record lies outside the segment that the run behind it
shares. -/
theorem leftOut_of_loose {count front steady other : Nat}
    (hhalves : (steady = 4 ∧ other = 6) ∨ (steady = 6 ∧ other = 4))
    (hshared : v5.KeepsHalf image steady (front + v5.recordSize) count)
    (hsteady : ¬ v5.KeepsHalf image steady front count)
    (hother : ¬ v5.KeepsHalf image other front count) : LeftOut image count front := by
  refine .farName steady other hhalves hshared ?_ hother
  intro hnext
  exact hsteady (hshared.front hnext)

/-- Where a table begins behind a record, one begins at the record too unless the record is left out. -/
theorem beginsTable_front_iff {count front : Nat} (hcount : 2 ≤ count)
    (hrecord : v5.recordAt image front = true)
    (h : v5.BeginsTable image count (front + v5.recordSize)) :
    v5.BeginsTable image count front ↔ ¬ LeftOut image count front := by
  have hrecords := recordAt_front hrecord h
  have hboth := keepsHalves_iff fun k hk => fits_of_recordAt (hrecords k hk)
  constructor
  · rintro hbegins (hsame | ⟨steady, other, hhalves, hshared, hfar, hloose⟩)
    · obtain ⟨hfirst, hsecond⟩ := hboth.2 hsame
      rcases hbegins.half rfl with ⟨_, hnot⟩ | ⟨_, hnot⟩
      · exact hnot hsecond
      · exact hnot hfirst
    · -- the run from the record on keeps one half, and it is neither of the two
      have hsteady : ¬ v5.KeepsHalf image steady front count := by
        intro hkeeps
        have hone := hkeeps 1 (by omega)
        rw [Nat.one_mul] at hone
        exact hfar hone.symm
      rcases hhalves with ⟨rfl, rfl⟩ | ⟨rfl, rfl⟩
      · rcases hbegins.half rfl with ⟨hkeeps, _⟩ | ⟨hkeeps, _⟩
        · exact hsteady hkeeps
        · exact hloose hkeeps
      · rcases hbegins.half rfl with ⟨hkeeps, _⟩ | ⟨hkeeps, _⟩
        · exact hloose hkeeps
        · exact hsteady hkeeps
  · intro hkept
    refine ⟨hrecords, fun _ => ?_⟩
    by_cases hfirst : v5.KeepsHalf image 4 front count
    · by_cases hsecond : v5.KeepsHalf image 6 front count
      · exact absurd (.oneName (hboth.1 ⟨hfirst, hsecond⟩)) hkept
      · exact .inl ⟨hfirst, hsecond⟩
    · by_cases hsecond : v5.KeepsHalf image 6 front count
      · exact .inr ⟨hsecond, hfirst⟩
      · exfalso
        rcases h.half rfl with ⟨hshared, _⟩ | ⟨hshared, _⟩
        · exact hkept (leftOut_of_loose (.inl ⟨rfl, rfl⟩) hshared hfirst hsecond)
        · exact hkept (leftOut_of_loose (.inr ⟨rfl, rfl⟩) hshared hsecond hfirst)

end Release

namespace Config

/-! ## The front of the first table -/

/-- The table that the scan finds holds every record from its beginning to the first slot without one. A
record in front of it belongs to no run that the scan accepts: its name lies outside the segment of the
names behind it, or the names from it on are all one. -/
theorem front_of_findTable {config : Config} {image : Image} {table : Span}
    (hrelease : config.release = .v5) (hrun : 2 ≤ config.minTableRun.toNat)
    (hfound : config.findTable image .unbounded = .ok (some table)) :
    (∀ k, table.start + k * 16 < table.stop →
      Release.v5.recordAt image (table.start + k * 16) = true) ∧
    Release.v5.recordAt image table.stop = false ∧
    ∀ front, front + 16 = table.start →
      Release.v5.recordAt image front = false ∨
        Release.LeftOut image config.minTableRun.toNat front := by
  have hfirst := (findTable_eq_some_iff.1 hfound).2
  rw [hrelease] at hfirst
  refine ⟨hfirst.records, hfirst.ends, fun front hfront => ?_⟩
  cases hrecord : Release.v5.recordAt image front with
  | false => exact .inl rfl
  | true =>
      right
      have hbegins : Release.v5.BeginsTable image config.minTableRun.toNat
          (front + Release.v5.recordSize) := by
        have hplace : front + Release.v5.recordSize = table.start := hfront
        rw [hplace]
        exact hfirst.begins
      by_cases hleft : Release.LeftOut image config.minTableRun.toNat front
      · exact hleft
      · -- otherwise the table would begin at the record in front
        have hearlier := hfirst.least front
          ((Release.beginsTable_front_iff hrun hrecord hbegins).2 hleft)
        omega

/-- A big endian record of a function whose name lies at an offset of a segment. -/
def nameRecord (segment high low : UInt8) : List UInt8 :=
  [0x00, 0x00, 0x00, 0x00, 0x10, segment, high, low, 0x10, 0x00, 0x01, 0x00, 0x00, 0x00, 0x05, 0x00]

/-- Three functions in a row. The name of the first one is the last of its segment, and the other two
names lie in the next segment. -/
def farName : Image :=
  .ofList (nameRecord 0x01 0xff 0xf0 ++ nameRecord 0x02 0x00 0x00 ++ nameRecord 0x02 0x00 0x10)

/-- Settings with which two records make a table. -/
def ofTwoRecords : Config := { minTableRun := 2 }

/-- The scan finds the last two records only. -/
theorem findTable_farName : ofTwoRecords.findTable farName .unbounded = .ok (some ⟨16, 48⟩) := by
  have hbegins : Release.v5.BeginsTable farName 2 16 :=
    Release.startsRun_iff.1 (by decide +kernel)
  have hrefused : ∀ offset, offset < 16 → Release.v5.startsRun farName 2 offset = false := by
    decide +kernel
  have hleast : ∀ offset, Release.v5.BeginsTable farName 2 offset → 16 ≤ offset := by
    intro offset hoffset
    rcases Nat.lt_or_ge offset 16 with hbelow | habove
    · have hnot := hrefused offset hbelow
      rw [Release.startsRun_iff.2 hoffset] at hnot
      cases hnot
    · exact habove
  have hend : Release.v5.runEnd farName 16 = 16 + 2 * Release.v5.recordSize :=
    Release.runEnd_eq_iff.2 (by decide +kernel)
  have htable := Release.isFirstTable_runEnd hbegins hleast
  rw [hend] at htable
  exact findTable_eq_some_iff.2 ⟨by decide, htable⟩

/-- A record may stand in front of a table: the first of the three is one, and the table begins behind
it. -/
theorem recordAt_front_farName :
    ofTwoRecords.release = .v5 ∧ 2 ≤ ofTwoRecords.minTableRun.toNat ∧
      ofTwoRecords.findTable farName .unbounded = .ok (some ⟨16, 48⟩) ∧
      Release.v5.recordAt farName 0 = true :=
  ⟨rfl, by decide, findTable_farName, by decide +kernel⟩

/-- The record in front of that table is left out because its name is far from the others. -/
theorem front_farName :
    ofTwoRecords.release = .v5 ∧ 2 ≤ ofTwoRecords.minTableRun.toNat ∧
      ofTwoRecords.findTable farName .unbounded = .ok (some ⟨16, 48⟩) ∧
      Release.LeftOut farName 2 0 := by
  have hrecord : Release.v5.recordAt farName 0 = true := by decide +kernel
  have hfront := (front_of_findTable rfl (by decide) findTable_farName).2.2 0 rfl
  rw [hrecord] at hfront
  exact ⟨rfl, by decide, findTable_farName, hfront.resolve_left (by decide)⟩

end Config

end FirmwareSymbols
