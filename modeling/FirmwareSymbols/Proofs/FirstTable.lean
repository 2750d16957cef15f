import FirmwareSymbols.Symbol.Table

/-!
# The first table of an image

The scan tests the offsets of an image up to a bound of its own, in one
pass or in blocks of 64 KiB. This file says what it finds without
mentioning the bound, the pass or the blocks: the least offset at which a
run of records begins, anywhere, together with the whole of that run.

## Main results

* `Release.startsRun_iff`: the run test, record by record.
* `Release.runEnd_eq_iff`: where a run is over.
* `Config.findStart_unbounded`: both scans are one search for the least
  offset.
* `Config.findTable_eq_some_iff`, `Config.findTable_eq_none_iff`,
  `Config.findTable_eq_error_iff`: the three answers without a budget.
-/

namespace FirmwareSymbols

/-! ## Splitting an upward search -/

theorem leastFrom_add (p : Nat → Bool) (lo m n : Nat) :
    leastFrom p lo (m + n) = (leastFrom p lo m).or (leastFrom p (lo + m) n) := by
  induction m generalizing lo with
  | zero => simp [leastFrom]
  | succ m ih =>
      rw [Nat.add_right_comm, leastFrom, leastFrom]
      by_cases hlo : p lo = true
      · simp [hlo]
      · rw [if_neg hlo, if_neg hlo, ih (lo + 1), Nat.add_assoc lo 1 m, Nat.add_comm 1 m]

theorem firstSomeFrom_test (p : Nat → Bool) (lo n : Nat) :
    firstSomeFrom (fun offset => if p offset then some offset else none) lo n =
      leastFrom p lo n := by
  induction n generalizing lo with
  | zero => rfl
  | succ n ih =>
      rw [firstSomeFrom, leastFrom, ih (lo + 1)]
      by_cases hlo : p lo = true
      · simp [hlo]
      · simp [hlo]

/-! ## Both scans are the plain search -/

theorem scanInOrder_unbounded (test : Nat → Bool) (candidates : Nat) :
    scanInOrder .unbounded test candidates = .ok (leastFrom test 0 candidates) := by
  rw [scanInOrder, Counter.firstSome_unbounded rfl, firstSomeFrom_test]

theorem scanBlock_unbounded (test : Nat → Bool) (candidates index : Nat) :
    scanBlock .unbounded test candidates index =
      .ok (leastFrom test (index * blockSize)
        (min blockSize (candidates - index * blockSize))) := by
  rw [scanBlock, Counter.firstSome_unbounded rfl, firstSomeFrom_test]

/-- Blocks that reach to the last candidate search all candidates from the first block on. -/
theorem scanBlocks_unbounded (test : Nat → Bool) (candidates : Nat) :
    ∀ blocks index, candidates ≤ (index + blocks) * blockSize →
      scanBlocks .unbounded test candidates index blocks =
        .ok (leastFrom test (index * blockSize) (candidates - index * blockSize)) := by
  intro blocks
  induction blocks with
  | zero =>
      intro index hreach
      have hempty : candidates - index * blockSize = 0 := by
        rw [Nat.add_zero] at hreach
        omega
      rw [hempty]
      rfl
  | succ blocks ih =>
      intro index hreach
      have hnext := ih (index + 1) (by rwa [Nat.add_right_comm, Nat.add_assoc])
      have hstep : (index + 1) * blockSize = index * blockSize + blockSize :=
        Nat.succ_mul index blockSize
      rw [scanBlocks_succ, scanBlock_unbounded, hnext, hstep]
      -- from here on the size of a block does not matter
      generalize index * blockSize = first
      generalize blockSize = size
      by_cases hlast : candidates - first ≤ size
      · have hnone : candidates - (first + size) = 0 := by omega
        rw [Nat.min_eq_right hlast, hnone]
        cases leastFrom test first (candidates - first) with
        | none => rfl
        | some offset => rfl
      · have hsplit : candidates - first = size + (candidates - (first + size)) := by omega
        rw [Nat.min_eq_left (by omega), hsplit, leastFrom_add]
        cases leastFrom test first size with
        | none =>
            rw [Option.none_or]
            rfl
        | some offset =>
            rw [Option.some_or]
            rfl

/-- With or without blocks, the scan without a budget is one search for the least offset. -/
theorem Config.findStart_unbounded (config : Config) (image : Image) (candidates : Nat) :
    config.findStart image .unbounded candidates =
      .ok (leastFrom (config.release.startsRun image config.minTableRun.toNat) 0 candidates) := by
  have hreach : candidates ≤
      (0 + (candidates + blockSize - 1) / blockSize) * blockSize := by
    simp only [blockSize]
    omega
  rw [findStart]
  split
  · rw [scanBlocks_unbounded _ _ _ 0 hreach, Nat.zero_mul, Nat.sub_zero]
  · exact scanInOrder_unbounded _ _

namespace Release

variable {release : Release} {image : Image}

/-! ## Runs, record by record -/

/-- Two bytes at a distance from the beginning of each record stay the same through `count` records. -/
def KeepsHalf (release : Release) (image : Image) (distance offset count : Nat) : Prop :=
  ∀ k, k < count →
    image.window (offset + k * release.recordSize + distance) 2 =
      image.window (offset + distance) 2

theorem isSteady_iff {distance offset count : Nat} :
    release.isSteady image distance offset count = true ↔
      release.KeepsHalf image distance offset count := by
  fun_induction isSteady release image distance offset count with
  | case1 offset => simp [KeepsHalf]
  | case2 offset =>
      simp only [true_iff]
      intro k hk
      have hzero : k = 0 := by omega
      simp [hzero]
  | case3 offset count ih =>
      have hshift : ∀ k, offset + (k + 1) * release.recordSize =
          offset + release.recordSize + k * release.recordSize := by
        intro k
        rw [Nat.succ_mul]
        omega
      simp only [Bool.and_eq_true, beq_iff_eq, ih]
      constructor
      · rintro ⟨hfirst, hrest⟩ k hk
        cases k with
        | zero => simp
        | succ k =>
            rw [hshift k, hrest k (by omega), hfirst]
      · intro hall
        have hsecond := hall 1 (by omega)
        rw [Nat.one_mul] at hsecond
        refine ⟨hsecond.symm, fun k hk => ?_⟩
        rw [← hshift k, hall (k + 1) (by omega), hsecond]

/-- A table of at least `count` records may begin at an offset: `count` records do, and the name
addresses of a 5.x run agree in exactly one of their halves. -/
structure BeginsTable (release : Release) (image : Image) (count offset : Nat) : Prop where
  records : ∀ k, k < count → release.recordAt image (offset + k * release.recordSize) = true
  half : release = .v5 →
    (release.KeepsHalf image 4 offset count ∧ ¬ release.KeepsHalf image 6 offset count) ∨
      (release.KeepsHalf image 6 offset count ∧ ¬ release.KeepsHalf image 4 offset count)

theorem startsRun_iff {count offset : Nat} :
    release.startsRun image count offset = true ↔ release.BeginsTable image count offset := by
  unfold startsRun
  rw [Bool.and_eq_true, holdsRecords_iff]
  constructor
  · rintro ⟨hrecords, hhalf⟩
    refine ⟨hrecords, ?_⟩
    rintro rfl
    have hfirst := @isSteady_iff .v5 image firstHalf offset count
    have hsecond := @isSteady_iff .v5 image secondHalf offset count
    rw [firstHalf] at hfirst
    rw [secondHalf] at hsecond
    rw [← hfirst, ← hsecond]
    revert hhalf
    rw [firstHalf, secondHalf]
    cases isSteady .v5 image 4 offset count <;> cases isSteady .v5 image 6 offset count <;> simp
  · rintro ⟨hrecords, hhalf⟩
    refine ⟨hrecords, ?_⟩
    cases release with
    | v6 => rfl
    | v5 =>
        have hone := hhalf rfl
        rw [← isSteady_iff, ← isSteady_iff] at hone
        show Bool.xor (isSteady .v5 image 4 offset count)
          (isSteady .v5 image 6 offset count) = true
        revert hone
        cases isSteady .v5 image 4 offset count <;>
          cases isSteady .v5 image 6 offset count <;> simp

/-- A table that begins anywhere leaves room for its run, unless the run is empty; and an empty run
begins at offset zero too. So some table begins where there is room for a run. -/
theorem BeginsTable.exists_within {count offset : Nat}
    (h : release.BeginsTable image count offset) :
    ∃ within, within ≤ offset ∧ (within = 0 ∨ 0 < count) ∧
      within + release.recordSize * count ≤ image.size ∧
      release.BeginsTable image count within := by
  cases count with
  | zero =>
      refine ⟨0, Nat.zero_le _, .inl rfl, by simp, fun k hk => absurd hk (Nat.not_lt_zero k), ?_⟩
      intro hv5
      have hkeeps : ∀ distance, release.KeepsHalf image distance offset 0 :=
        fun distance k hk => absurd hk (Nat.not_lt_zero k)
      rcases h.half hv5 with ⟨_, hnot⟩ | ⟨_, hnot⟩
      · exact absurd (hkeeps 6) hnot
      · exact absurd (hkeeps 4) hnot
  | succ count =>
      have hfits := fits_of_recordAt (h.records count (by omega))
      refine ⟨offset, Nat.le_refl _, .inr (by omega), ?_, h⟩
      rw [Nat.mul_succ, Nat.mul_comm]
      omega

/-! ## The end of a run -/

/-- A run ends a whole number of records behind its beginning. -/
theorem exists_runEnd (release : Release) (image : Image) (offset : Nat) :
    ∃ count, release.runEnd image offset = offset + count * release.recordSize ∧
      ∀ k, k < count → release.recordAt image (offset + k * release.recordSize) = true := by
  fun_induction runEnd release image offset with
  | case1 offset hrecord ih =>
      obtain ⟨count, hend, hrecords⟩ := ih
      refine ⟨count + 1, by rw [hend, Nat.succ_mul]; omega, fun k hk => ?_⟩
      cases k with
      | zero => simpa using hrecord
      | succ k =>
          have hnext := hrecords k (by omega)
          rwa [Nat.add_assoc, Nat.add_comm release.recordSize, ← Nat.succ_mul] at hnext
  | case2 offset hrecord =>
      exact ⟨0, by simp, fun k hk => absurd hk (Nat.not_lt_zero k)⟩

/-- The end of a run is the first slot behind its beginning without a record. -/
theorem runEnd_eq_iff {offset count : Nat} :
    release.runEnd image offset = offset + count * release.recordSize ↔
      (∀ k, k < count → release.recordAt image (offset + k * release.recordSize) = true) ∧
        release.recordAt image (offset + count * release.recordSize) = false := by
  have hpos := release.recordSize_pos
  obtain ⟨reached, hend, hrecords⟩ := exists_runEnd release image offset
  have hclosed := recordAt_runEnd release image offset
  rw [hend] at hclosed
  constructor
  · intro heq
    have hsame : reached = count := by
      rw [hend] at heq
      exact Nat.eq_of_mul_eq_mul_right hpos (by omega)
    rw [← hsame]
    exact ⟨hrecords, hclosed⟩
  · rintro ⟨hall, hstop⟩
    -- the two counts cannot differ: the smaller one would be a record and no record
    have hsame : reached = count := by
      rcases Nat.lt_trichotomy reached count with hlt | heq | hgt
      · rw [hall reached hlt] at hclosed
        cases hclosed
      · exact heq
      · rw [hrecords count hgt] at hstop
        cases hstop
    rw [hend, hsame]

/-! ## The first table -/

/-- What the first table of an image is: it begins at the least offset at which a table may begin and
holds all records of the run that begins there. -/
structure IsFirstTable (release : Release) (image : Image) (minRun : Nat) (table : Span) :
    Prop where
  begins : release.BeginsTable image minRun table.start
  least : ∀ offset, release.BeginsTable image minRun offset → table.start ≤ offset
  whole : ∃ count, minRun ≤ count ∧ table.stop = table.start + count * release.recordSize
  records : ∀ k, table.start + k * release.recordSize < table.stop →
    release.recordAt image (table.start + k * release.recordSize) = true
  ends : release.recordAt image table.stop = false
  inside : table.stop ≤ image.size
  unpreceded : release = .v6 → ∀ offset, offset + release.recordSize = table.start →
    release.recordAt image offset = false

/-- Without a half to keep, a record in front of a run makes the run begin one record earlier. -/
theorem BeginsTable.extend {count offset : Nat} (hv6 : release = .v6)
    (hrecord : release.recordAt image offset = true)
    (h : release.BeginsTable image count (offset + release.recordSize)) :
    release.BeginsTable image count offset := by
  refine ⟨fun k hk => ?_, fun hv5 => ?_⟩
  · cases k with
    | zero => simpa using hrecord
    | succ k =>
        have hnext := h.records k (by omega)
        rwa [Nat.add_assoc, Nat.add_comm release.recordSize, ← Nat.succ_mul] at hnext
  · rw [hv6] at hv5
    cases hv5

theorem isFirstTable_runEnd {minRun start : Nat}
    (hbegins : release.BeginsTable image minRun start)
    (hleast : ∀ offset, release.BeginsTable image minRun offset → start ≤ offset) :
    release.IsFirstTable image minRun ⟨start, release.runEnd image start⟩ := by
  have hpos := release.recordSize_pos
  obtain ⟨count, hend, hrecords⟩ := exists_runEnd release image start
  have hclosed := recordAt_runEnd release image start
  obtain ⟨within, hle, _, hroom, hwithin⟩ := hbegins.exists_within
  have hstart : within = start := Nat.le_antisymm hle (hleast within hwithin)
  refine
    { begins := hbegins
      least := hleast
      whole := ⟨count, ?_, hend⟩
      records := ?_
      ends := hclosed
      inside := ?_
      unpreceded := ?_ }
  · -- a shorter run would stop at a record of the run that begins here
    rcases Nat.lt_or_ge count minRun with hlt | hge
    · rw [hend, hbegins.records count hlt] at hclosed
      cases hclosed
    · exact hge
  · intro k hk
    have hslot : start + k * release.recordSize < start + count * release.recordSize := by
      rw [← hend]
      exact hk
    exact hrecords k (Nat.lt_of_mul_lt_mul_right (a := release.recordSize) (by omega))
  · show release.runEnd image start ≤ image.size
    rw [hend]
    cases count with
    | zero => omega
    | succ count =>
        have hfits := fits_of_recordAt (hrecords count (by omega))
        rw [Nat.succ_mul]
        omega
  · intro hv6 offset hbefore
    replace hbefore : offset + release.recordSize = start := hbefore
    by_cases hrecord : release.recordAt image offset = true
    · exfalso
      rcases Nat.eq_zero_or_pos minRun with hzero | hminRun
      · have hfirst : release.BeginsTable image minRun 0 := by
          subst hzero
          refine ⟨fun k hk => absurd hk (Nat.not_lt_zero k), fun hv5 => ?_⟩
          rw [hv6] at hv5
          cases hv5
        have hzero := hleast 0 hfirst
        omega
      · have hearlier := hleast offset
          (BeginsTable.extend hv6 hrecord (by rw [hbefore]; exact hbegins))
        omega
    · simpa using hrecord

theorem IsFirstTable.runEnd_eq {minRun : Nat} {table : Span}
    (h : release.IsFirstTable image minRun table) :
    release.runEnd image table.start = table.stop := by
  obtain ⟨count, _, hstop⟩ := h.whole
  rw [hstop, runEnd_eq_iff]
  refine ⟨fun k hk => h.records k ?_, hstop ▸ h.ends⟩
  rw [hstop]
  have := Nat.mul_lt_mul_of_pos_right hk release.recordSize_pos
  omega

end Release

namespace Config

variable {config : Config} {image : Image}

/-! ## The answers of the scan -/

/-- The run test accepts no candidate below its bound exactly when no table begins anywhere. -/
theorem leastFrom_startsRun_eq_none_iff {release : Release} {count : Nat}
    (hroom : release.recordSize * count ≤ image.size) :
    leastFrom (release.startsRun image count) 0 (image.size - release.recordSize * count + 1) =
        none ↔
      ∀ offset, ¬ release.BeginsTable image count offset := by
  rw [leastFrom_eq_none_iff]
  constructor
  · intro hnone offset hbegins
    obtain ⟨within, _, _, hfits, hwithin⟩ := hbegins.exists_within
    have hrefused := hnone within (Nat.zero_le _) (by omega)
    rw [Release.startsRun_iff.2 hwithin] at hrefused
    cases hrefused
  · intro hnone offset _ _
    have hnot : ¬ release.startsRun image count offset = true :=
      fun hstarts => hnone offset (Release.startsRun_iff.1 hstarts)
    simpa using hnot

/-- The first candidate that the run test accepts is the least offset at which a table begins. -/
theorem leastFrom_startsRun_eq_some_iff {release : Release} {count start : Nat}
    (hroom : release.recordSize * count ≤ image.size) :
    leastFrom (release.startsRun image count) 0 (image.size - release.recordSize * count + 1) =
        some start ↔
      release.BeginsTable image count start ∧
        ∀ offset, release.BeginsTable image count offset → start ≤ offset := by
  rw [leastFrom_eq_some_iff, Release.startsRun_iff]
  constructor
  · rintro ⟨_, hbound, hbegins, hbelow⟩
    refine ⟨hbegins, fun offset hoffset => ?_⟩
    rcases Nat.lt_or_ge offset start with hlt | hge
    · have hrefused := hbelow offset (Nat.zero_le _) hlt
      rw [Release.startsRun_iff.2 hoffset] at hrefused
      cases hrefused
    · exact hge
  · rintro ⟨hbegins, hleast⟩
    obtain ⟨within, hle, _, hfits, hwithin⟩ := hbegins.exists_within
    have hstart := hleast within hwithin
    refine ⟨Nat.zero_le _, by omega, hbegins, fun offset _ hlt => ?_⟩
    have hnot : ¬ release.startsRun image count offset = true := by
      intro hstarts
      have := hleast offset (Release.startsRun_iff.1 hstarts)
      omega
    simpa using hnot

/-- Without room for a run no table begins. -/
theorem not_beginsTable_of_size_lt {release : Release} {count : Nat}
    (hshort : image.size < release.recordSize * count) (offset : Nat) :
    ¬ release.BeginsTable image count offset := by
  intro hbegins
  obtain ⟨within, _, _, hfits, _⟩ := hbegins.exists_within
  omega

theorem findTable_eq_error_iff {fault : Fault} :
    config.findTable image .unbounded = .error fault ↔
      image.size < config.release.recordSize ∧
        fault = .shortImage image.size config.release.recordSize := by
  unfold findTable
  by_cases hshort : image.size < config.release.recordSize
  · simp only [hshort, if_true, true_and, Except.error.injEq]
    exact eq_comm
  · simp only [hshort, if_false, false_and, iff_false, findStart_unbounded]
    split
    · simp
    · cases leastFrom (config.release.startsRun image config.minTableRun.toNat) 0
        (image.size - config.release.recordSize * config.minTableRun.toNat + 1) <;> simp

theorem findTable_eq_none_iff :
    config.findTable image .unbounded = .ok none ↔
      config.release.recordSize ≤ image.size ∧
        ∀ offset, ¬ config.release.BeginsTable image config.minTableRun.toNat offset := by
  unfold findTable
  by_cases hshort : image.size < config.release.recordSize
  · simp only [hshort, if_true, reduceCtorEq, false_iff]
    omega
  · have hrecord : config.release.recordSize ≤ image.size := by omega
    simp only [hshort, if_false, hrecord, true_and, findStart_unbounded]
    by_cases hrun : image.size < config.release.recordSize * config.minTableRun.toNat
    · simp only [hrun, if_true, true_iff]
      exact not_beginsTable_of_size_lt hrun
    · rw [if_neg hrun, ← leastFrom_startsRun_eq_none_iff (by omega)]
      cases leastFrom (config.release.startsRun image config.minTableRun.toNat) 0
        (image.size - config.release.recordSize * config.minTableRun.toNat + 1) <;> simp

theorem findTable_eq_some_iff {table : Span} :
    config.findTable image .unbounded = .ok (some table) ↔
      config.release.recordSize ≤ image.size ∧
        config.release.IsFirstTable image config.minTableRun.toNat table := by
  unfold findTable
  by_cases hshort : image.size < config.release.recordSize
  · simp only [hshort, if_true, reduceCtorEq, false_iff]
    omega
  · have hrecord : config.release.recordSize ≤ image.size := by omega
    simp only [hshort, if_false, hrecord, true_and, findStart_unbounded]
    by_cases hrun : image.size < config.release.recordSize * config.minTableRun.toNat
    · simp only [hrun, if_true, Except.ok.injEq, reduceCtorEq, false_iff]
      exact fun hfirst => not_beginsTable_of_size_lt hrun table.start hfirst.begins
    · rw [if_neg hrun]
      have hroom : config.release.recordSize * config.minTableRun.toNat ≤ image.size := by omega
      constructor
      · intro hfound
        cases hleast : leastFrom (config.release.startsRun image config.minTableRun.toNat) 0
            (image.size - config.release.recordSize * config.minTableRun.toNat + 1) with
        | none => simp [hleast] at hfound
        | some start =>
            simp only [hleast, Except.ok.injEq, Option.some.injEq] at hfound
            obtain ⟨hbegins, hbelow⟩ := (leastFrom_startsRun_eq_some_iff hroom).1 hleast
            rw [← hfound]
            exact Release.isFirstTable_runEnd hbegins hbelow
      · intro hfirst
        rw [(leastFrom_startsRun_eq_some_iff hroom).2 ⟨hfirst.begins, hfirst.least⟩]
        show Except.ok (some (Span.mk table.start _)) = _
        rw [hfirst.runEnd_eq]

/-- Where a table begins at all, a first one begins, and it begins inside the image. -/
theorem exists_isFirstTable_iff {release : Release} {minRun : Nat}
    (hrecord : release.recordSize ≤ image.size) :
    (∃ table, release.IsFirstTable image minRun table) ↔
      ∃ offset, offset < image.size ∧ release.BeginsTable image minRun offset := by
  have hpos := release.recordSize_pos
  constructor
  · rintro ⟨table, hfirst⟩
    refine ⟨table.start, ?_, hfirst.begins⟩
    obtain ⟨within, _, hplace, hroom, hwithin⟩ := hfirst.begins.exists_within
    have hstart := hfirst.least within hwithin
    rcases hplace with hzero | hrun
    · omega
    · have := Nat.mul_pos hpos hrun
      omega
  · rintro ⟨offset, _, hbegins⟩
    obtain ⟨within, _, _, hroom, _⟩ := hbegins.exists_within
    have hrun : release.recordSize * minRun ≤ image.size := by omega
    cases hleast : leastFrom (release.startsRun image minRun) 0
        (image.size - release.recordSize * minRun + 1) with
    | none => exact absurd hbegins ((leastFrom_startsRun_eq_none_iff hrun).1 hleast offset)
    | some start =>
        obtain ⟨hstart, hbelow⟩ := (leastFrom_startsRun_eq_some_iff hrun).1 hleast
        exact ⟨_, Release.isFirstTable_runEnd hstart hbelow⟩

/-- Neither kind of scan depends on the other's choice: the answer is the same with and without
blocks. -/
theorem findTable_parallelScan (config : Config) (image : Image) (parallel : Bool) :
    { config with parallelScan := parallel }.findTable image .unbounded =
      config.findTable image .unbounded := by
  simp only [findTable, findStart_unbounded]

/-- The exact answer of the scan without a budget, for all images and all settings. It is a fault
exactly if the image has no room for a record; otherwise it is the first table exactly if a table
begins anywhere in the image; and it does not depend on how the image is scanned. -/
theorem findTable_exact (config : Config) (image : Image) :
    (∀ fault, config.findTable image .unbounded = .error fault ↔
      image.size < config.release.recordSize ∧
        fault = .shortImage image.size config.release.recordSize) ∧
    (∀ table, config.findTable image .unbounded = .ok (some table) ↔
      config.release.recordSize ≤ image.size ∧
        config.release.IsFirstTable image config.minTableRun.toNat table) ∧
    ((∃ table, config.findTable image .unbounded = .ok (some table)) ↔
      config.release.recordSize ≤ image.size ∧
        ∃ offset, offset < image.size ∧
          config.release.BeginsTable image config.minTableRun.toNat offset) ∧
    (config.findTable image .unbounded = .ok none ↔
      config.release.recordSize ≤ image.size ∧
        ∀ offset, ¬ config.release.BeginsTable image config.minTableRun.toNat offset) ∧
    (∀ parallel, { config with parallelScan := parallel }.findTable image .unbounded =
      config.findTable image .unbounded) := by
  refine ⟨fun fault => findTable_eq_error_iff, fun table => findTable_eq_some_iff, ?_,
    findTable_eq_none_iff, findTable_parallelScan config image⟩
  constructor
  · rintro ⟨table, hfound⟩
    obtain ⟨hrecord, hfirst⟩ := findTable_eq_some_iff.1 hfound
    exact ⟨hrecord, (exists_isFirstTable_iff hrecord).1 ⟨table, hfirst⟩⟩
  · rintro ⟨hrecord, hbegins⟩
    obtain ⟨table, hfirst⟩ := (exists_isFirstTable_iff hrecord).2 hbegins
    exact ⟨table, findTable_eq_some_iff.2 ⟨hrecord, hfirst⟩⟩

end Config

end FirmwareSymbols
