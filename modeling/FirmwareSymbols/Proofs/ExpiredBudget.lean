import FirmwareSymbols.Proofs.FirstPair
import FirmwareSymbols.Proofs.FirstTable
import FirmwareSymbols.Proofs.Stages

/-!
# What a budget that has run out leaves of a search

A counter reads the clock only now and then, so a search whose budget ran
out before it began still tests the candidates up to the first reading.
The reading comes before the test of the candidate that is counted with
it. So a search with an interval of `n` iterations tests `n - 1` candidates
if there are as many; a hit among them is its answer, and otherwise the
search fails at the reading or, with fewer candidates, comes to its end.

Each of the blocks of a scan has a counter of its own, but the first block
decides: it has a hit, it fails, or there is no other block.

## Main definitions

* `Budget.expired`: a budget of which every reading is past the limit.
* `Config.StopsAt`: what the scan for the symbol table answers if it stops
  at an iteration.

## Main results

* `Counter.firstSome_expired`: a counted search up to the first reading.
* `scanInOrder_expired`, `scanBlocks_expired`: the two ways to scan.
* `Config.stopsAt_findTable`: the scan for the symbol table.
-/

namespace FirmwareSymbols

/-- A budget that has run out before the first reading; a reading gives the milliseconds that have
elapsed by then. -/
def Budget.expired (clock : Search → Nat → Nat) : Budget :=
  .bounded fun search iteration => some (clock search iteration)

/-! ## Counted searches -/

/-- The answer of a search that has tested some of its candidates: a hit, or the fault that keeps it from
testing the others, if there are others. -/
def orFault {β : Type} (fault : Fault) (complete : Prop) [Decidable complete] :
    Option β → Except Fault (Option β)
  | some answer => .ok (some answer)
  | none => if complete then .ok none else .error fault

section OrFault

variable {β : Type} {fault other : Fault} {complete : Prop} [Decidable complete]
  {answer : Option β}

theorem orFault_eq_some_iff {b : β} :
    orFault fault complete answer = .ok (some b) ↔ answer = some b := by
  cases answer with
  | some a => simp [orFault]
  | none => by_cases hcomplete : complete <;> simp [orFault, hcomplete]

theorem orFault_eq_error_iff :
    orFault fault complete answer = .error other ↔
      answer = none ∧ ¬ complete ∧ other = fault := by
  cases answer with
  | some a => simp [orFault]
  | none => by_cases hcomplete : complete <;> simp [orFault, hcomplete, eq_comm]

theorem orFault_eq_none_iff :
    orFault fault complete answer = .ok none ↔ answer = none ∧ complete := by
  cases answer with
  | some a => simp [orFault]
  | none => by_cases hcomplete : complete <;> simp [orFault, hcomplete]

end OrFault

section Mapped

variable {α β : Type} {f : α → β} {search : Except Fault (Option α)}

theorem map_map_eq_ok_some_iff {b : β} :
    search.map (·.map f) = .ok (some b) ↔ ∃ a, search = .ok (some a) ∧ f a = b := by
  cases search with
  | error fault => simp [Except.map]
  | ok answer => simp [Except.map]

theorem map_map_eq_error_iff {fault : Fault} :
    search.map (·.map f) = .error fault ↔ search = .error fault := by
  cases search with
  | error other => simp [Except.map]
  | ok answer => simp [Except.map]

theorem map_map_eq_ok_none_iff : search.map (·.map f) = .ok none ↔ search = .ok none := by
  cases search with
  | error fault => simp [Except.map]
  | ok answer => simp [Except.map]

end Mapped

section Counted

variable {β : Type} {clock : Search → Nat → Nat} {search : Search} {interval : Nat}

/-- A counter lets every iteration pass that is no multiple of its interval. -/
theorem Counter.check_expired (hpos : 0 < interval) (iteration : Nat) :
    ((Budget.expired clock).counter search interval).check iteration =
      if iteration % interval = 0 then
        .error (.searchExhausted search.operation iteration (clock search iteration))
      else .ok () := by
  have hinterval : max interval 1 = interval := by omega
  simp only [Counter.check, Budget.counter, Budget.expired, hinterval]

/-- A search that has counted less than an interval goes on to the next reading, and no further. -/
theorem Counter.firstSome_expired (test : Nat → Option β) {done : Nat} (hdone : done < interval)
    (candidate count : Nat) :
    ((Budget.expired clock).counter search interval).firstSome test done candidate count =
      orFault (.searchExhausted search.operation interval (clock search interval))
        (done + count < interval)
        (firstSomeFrom test candidate (min count (interval - 1 - done))) := by
  induction count generalizing done candidate with
  | zero =>
      rw [Nat.zero_min, Nat.add_zero, firstSomeFrom, orFault, if_pos hdone]
      rfl
  | succ count ih =>
      rw [Counter.firstSome, Counter.check_expired (Nat.zero_lt_of_lt hdone)]
      by_cases hlast : done + 1 = interval
      · have hroom : min (count + 1) (interval - 1 - done) = 0 := by omega
        rw [if_pos (by rw [hlast, Nat.mod_self]), hroom, firstSomeFrom, orFault,
          if_neg (by omega), hlast]
      · have hstep : done + 1 < interval := by omega
        have hroom : min (count + 1) (interval - 1 - done) =
            min count (interval - 1 - (done + 1)) + 1 := by omega
        rw [if_neg (by rw [Nat.mod_eq_of_lt hstep]; omega), hroom, firstSomeFrom]
        cases test candidate with
        | some answer => rfl
        | none =>
            have hcount : done + (count + 1) = done + 1 + count := by omega
            rw [Option.none_or, ih hstep (candidate + 1)]
            simp only [hcount]

end Counted

/-! ## The scan for the symbol table -/

/-- What a search over `count` candidates with a first hit answers if it stops with a fault at an
iteration. The candidates have the numbers from one on. -/
def stopAt (fault : Fault) (iteration count : Nat) : Option Nat → Except Fault (Option Nat)
  | some offset => if offset + 1 < iteration then .ok (some offset) else .error fault
  | none => if count < iteration then .ok none else .error fault

section StopAt

variable {fault other : Fault} {iteration count : Nat} {first : Option Nat}

theorem stopAt_eq_some_iff {offset : Nat} :
    stopAt fault iteration count first = .ok (some offset) ↔
      first = some offset ∧ offset + 1 < iteration := by
  cases first with
  | none => by_cases hall : count < iteration <;> simp [stopAt, hall]
  | some hit =>
      by_cases hbefore : hit + 1 < iteration
      · simp only [stopAt, hbefore, if_true, Except.ok.injEq, Option.some.injEq]
        exact ⟨fun h => ⟨h, h ▸ hbefore⟩, fun h => h.1⟩
      · refine iff_of_false (by simp [stopAt, hbefore]) fun h => hbefore ?_
        rw [Option.some.inj h.1]
        exact h.2

/-- A search stops with its fault if it comes to the iteration. -/
theorem stopAt_eq_error_iff (hcount : ∀ offset, first = some offset → offset < count) :
    stopAt fault iteration count first = .error other ↔
      other = fault ∧ iteration ≤ count ∧
        ∀ offset, first = some offset → iteration ≤ offset + 1 := by
  cases first with
  | none =>
      by_cases hall : count < iteration
      · simp [stopAt, hall]
      · simp [stopAt, hall, eq_comm, Nat.le_of_not_lt hall]
  | some hit =>
      have hhit := hcount hit rfl
      by_cases hbefore : hit + 1 < iteration
      · refine iff_of_false (by simp [stopAt, hbefore]) fun h => ?_
        have := h.2.2 hit rfl
        omega
      · have hlate : iteration ≤ hit + 1 := Nat.le_of_not_lt hbefore
        have hreached : iteration ≤ count := Nat.le_trans hlate hhit
        simp [stopAt, hbefore, eq_comm, hlate, hreached]

theorem stopAt_eq_none_iff :
    stopAt fault iteration count first = .ok none ↔ first = none ∧ count < iteration := by
  cases first with
  | none => by_cases hall : count < iteration <;> simp [stopAt, hall]
  | some hit => by_cases hbefore : hit + 1 < iteration <;> simp [stopAt, hbefore]

end StopAt

/-- Up to an iteration, an upward search finds what the whole search finds there. -/
theorem orFault_leastFrom (test : Nat → Bool) (fault : Fault) {iteration : Nat}
    (hpos : 0 < iteration) (count : Nat) :
    orFault fault (count < iteration) (leastFrom test 0 (min count (iteration - 1))) =
      stopAt fault iteration count (leastFrom test 0 count) := by
  have hsplit := leastFrom_add test 0 (min count (iteration - 1))
    (count - min count (iteration - 1))
  rw [Nat.add_sub_cancel' (Nat.min_le_left _ _)] at hsplit
  rw [hsplit]
  cases hfront : leastFrom test 0 (min count (iteration - 1)) with
  | some offset =>
      obtain ⟨_, hlt, _⟩ := leastFrom_eq_some_iff.1 hfront
      have hbefore : offset + 1 < iteration := by omega
      rw [orFault, Option.some_or, stopAt, if_pos hbefore]
  | none =>
      rw [Option.none_or]
      cases hback : leastFrom test (0 + min count (iteration - 1))
          (count - min count (iteration - 1)) with
      | none => rfl
      | some offset =>
          obtain ⟨hge, hlt, _⟩ := leastFrom_eq_some_iff.1 hback
          have hbehind : ¬ offset + 1 < iteration := by omega
          rw [orFault, stopAt, if_neg hbehind, if_neg (by omega)]

theorem scanInOrder_expired (clock : Search → Nat → Nat) (test : Nat → Bool) (candidates : Nat) :
    scanInOrder (.expired clock) test candidates =
      stopAt (.searchExhausted "symbol_table_scan" defaultInterval
          (clock .sequentialScan defaultInterval))
        defaultInterval candidates (leastFrom test 0 candidates) := by
  rw [scanInOrder, Counter.firstSome_expired _ (by decide), firstSomeFrom_test,
    ← orFault_leastFrom test _ (by decide)]
  simp only [Nat.zero_add, Nat.sub_zero]
  rfl

/-- A block is longer than its interval, so it stops where a scan of all candidates would stop. -/
theorem scanBlock_expired (clock : Search → Nat → Nat) (test : Nat → Bool) (candidates : Nat) :
    scanBlock (.expired clock) test candidates 0 =
      stopAt (.searchExhausted "symbol_table_scan" blockInterval
          (clock (.blockScan 0) blockInterval))
        blockInterval candidates (leastFrom test 0 candidates) := by
  have hroom : min (min blockSize candidates) (blockInterval - 1) =
      min candidates (blockInterval - 1) := by
    simp only [blockSize, blockInterval]
    omega
  have hcomplete : min blockSize candidates < blockInterval ↔ candidates < blockInterval := by
    simp only [blockSize, blockInterval]
    omega
  rw [scanBlock, Counter.firstSome_expired _ (by decide), firstSomeFrom_test,
    ← orFault_leastFrom test _ (by decide)]
  simp only [Nat.zero_mul, Nat.zero_add, Nat.sub_zero, hroom, hcomplete]
  rfl

/-- The first block decides, whatever the others hold. -/
theorem scanBlocks_expired (clock : Search → Nat → Nat) (test : Nat → Bool) {candidates : Nat}
    (hpos : 0 < candidates) :
    scanBlocks (.expired clock) test candidates 0 ((candidates + blockSize - 1) / blockSize) =
      stopAt (.searchExhausted "symbol_table_scan" blockInterval
          (clock (.blockScan 0) blockInterval))
        blockInterval candidates (leastFrom test 0 candidates) := by
  obtain ⟨more, hmore⟩ : ∃ more, (candidates + blockSize - 1) / blockSize = more + 1 := by
    refine Nat.exists_eq_succ_of_ne_zero (Nat.ne_of_gt (Nat.div_pos ?_ (by decide)))
    omega
  rw [hmore, scanBlocks_succ, scanBlock_expired]
  cases leastFrom test 0 candidates with
  | some offset =>
      rw [stopAt]
      split <;> rfl
  | none =>
      rw [stopAt]
      split
      · -- fewer candidates than an interval fill no second block
        have hone : more = 0 := by
          simp only [blockSize, blockInterval] at *
          omega
        rw [hone]
        rfl
      · rfl

namespace Config

/-- The number of offsets at which an image has room for a whole run. -/
def candidates (config : Config) (image : Image) : Nat :=
  image.size - config.release.recordSize * config.minTableRun.toNat + 1

/-- What a scan answers that would stop with a fault at an iteration: the first table of the image if it
begins at a candidate that is tested before, the fault if there is a candidate for that iteration and none
before it is the beginning of a table, and nothing if there is neither. -/
structure StopsAt (config : Config) (image : Image) (budget : Budget) (iteration : Nat)
    (fault : Fault) : Prop where
  found : ∀ table, config.findTable image budget = .ok (some table) ↔
    config.release.IsFirstTable image config.minTableRun.toNat table ∧
      table.start + 1 < iteration
  fails : ∀ other, config.findTable image budget = .error other ↔
    other = fault ∧ iteration ≤ config.candidates image ∧
      ∀ table, config.release.IsFirstTable image config.minTableRun.toNat table →
        iteration ≤ table.start + 1
  nothing : config.findTable image budget = .ok none ↔
    config.candidates image < iteration ∧
      ∀ offset, ¬ config.release.BeginsTable image config.minTableRun.toNat offset

/-- The first table is told by the first offset that passes the run test. -/
theorem isFirstTable_iff_leastFrom {config : Config} {image : Image} {table : Span}
    (hroom : config.release.recordSize * config.minTableRun.toNat ≤ image.size) :
    config.release.IsFirstTable image config.minTableRun.toNat table ↔
      leastFrom (config.release.startsRun image config.minTableRun.toNat) 0
          (config.candidates image) = some table.start ∧
        config.release.runEnd image table.start = table.stop := by
  rw [candidates, leastFrom_startsRun_eq_some_iff hroom]
  constructor
  · exact fun hfirst => ⟨⟨hfirst.begins, hfirst.least⟩, hfirst.runEnd_eq⟩
  · rintro ⟨⟨hbegins, hleast⟩, hstop⟩
    have hfirst := Release.isFirstTable_runEnd hbegins hleast
    rwa [hstop] at hfirst

/-- A scan finds the table that begins where its search for a beginning ends. -/
theorem findTable_eq_of_findStart {config : Config} {image : Image} {budget : Budget}
    (hrecord : config.release.recordSize ≤ image.size)
    (hroom : config.release.recordSize * config.minTableRun.toNat ≤ image.size) :
    config.findTable image budget =
      (config.findStart image budget (config.candidates image)).map
        (·.map fun start => ⟨start, config.release.runEnd image start⟩) := by
  rw [findTable_eq_bind, if_neg (Nat.not_lt.2 hrecord), if_neg (Nat.not_lt.2 hroom), candidates]
  cases config.findStart image budget _ <;> rfl

/-- A scan stops where its search for the beginning of a table stops. -/
theorem stopsAt_of_findStart {config : Config} {image : Image} {budget : Budget} {iteration : Nat}
    {fault : Fault} (hrecord : config.release.recordSize ≤ image.size)
    (hroom : config.release.recordSize * config.minTableRun.toNat ≤ image.size)
    (hsearch : config.findStart image budget (config.candidates image) =
      stopAt fault iteration (config.candidates image)
        (leastFrom (config.release.startsRun image config.minTableRun.toNat) 0
          (config.candidates image))) :
    config.StopsAt image budget iteration fault := by
  have hscan : config.findTable image budget = _ := findTable_eq_of_findStart hrecord hroom
  have hnone : leastFrom _ 0 (config.candidates image) = none ↔ _ :=
    leastFrom_startsRun_eq_none_iff hroom
  have hcandidate : ∀ offset, leastFrom (config.release.startsRun image config.minTableRun.toNat) 0
      (config.candidates image) = some offset → offset < config.candidates image := by
    intro offset hoffset
    obtain ⟨_, hlt, _⟩ := leastFrom_eq_some_iff.1 hoffset
    rwa [Nat.zero_add] at hlt
  rw [hsearch] at hscan
  refine ⟨fun table => ?_, fun other => ?_, ?_⟩
  · rw [hscan, map_map_eq_ok_some_iff, isFirstTable_iff_leastFrom hroom]
    simp only [stopAt_eq_some_iff]
    constructor
    · rintro ⟨start, ⟨hstart, hbefore⟩, rfl⟩
      exact ⟨⟨hstart, rfl⟩, hbefore⟩
    · rintro ⟨⟨hstart, hstop⟩, hbefore⟩
      exact ⟨table.start, ⟨hstart, hbefore⟩, by rw [hstop]⟩
  · rw [hscan, map_map_eq_error_iff, stopAt_eq_error_iff hcandidate]
    refine and_congr_right fun _ => and_congr_right fun _ => ?_
    constructor
    · exact fun hlate table hfirst => hlate _ ((isFirstTable_iff_leastFrom hroom).1 hfirst).1
    · intro hlate start hstart
      exact hlate ⟨start, config.release.runEnd image start⟩
        ((isFirstTable_iff_leastFrom hroom).2 ⟨hstart, rfl⟩)
  · rw [hscan, map_map_eq_ok_none_iff, stopAt_eq_none_iff, hnone, and_comm]

/-- The scan in one go stops at its first reading, and the scan in blocks at the first one of its first
block. -/
theorem stopsAt_findTable (clock : Search → Nat → Nat) {config : Config} {image : Image}
    (hrecord : config.release.recordSize ≤ image.size)
    (hroom : config.release.recordSize * config.minTableRun.toNat ≤ image.size) :
    (config.parallelScan = false → config.StopsAt image (.expired clock) defaultInterval
      (.searchExhausted "symbol_table_scan" defaultInterval
        (clock .sequentialScan defaultInterval))) ∧
    (config.parallelScan = true → config.StopsAt image (.expired clock) blockInterval
      (.searchExhausted "symbol_table_scan" blockInterval
        (clock (.blockScan 0) blockInterval))) := by
  constructor
  · intro hmode
    refine stopsAt_of_findStart hrecord hroom ?_
    simp only [findStart, hmode, Bool.false_eq_true, if_false]
    exact scanInOrder_expired clock _ _
  · intro hmode
    have hpos : 0 < config.candidates image := Nat.succ_pos _
    refine stopsAt_of_findStart hrecord hroom ?_
    simp only [findStart, hmode, if_true]
    exact scanBlocks_expired clock _ hpos

end Config

end FirmwareSymbols
