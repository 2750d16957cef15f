import FirmwareSymbols.Proofs.Checked
import FirmwareSymbols.Proofs.Stages
import FirmwareSymbols.Proofs.FirstTable

/-!
# The scan for the symbol table, step by step

The scan once more, with each sum, each difference and each slice as a
step that can be trapped. None of them is. Two bytes of a record are read
only after the record was found to lie in the image, and the end of a run
moves only past such a record.

## Main results

* `Checked.recordAt_eq`, `Checked.startsRun_eq`: the tests of a record and
  of a run.
* `Checked.runEnd_eq`: the end of a run.
* `Checked.findTable_eq`: both kinds of scan, and the extent of the table.
-/

namespace FirmwareSymbols

namespace Checked

variable {release : Release} {image : Image}

/-! ## Records -/

/-- Whether a record lacks the address of the thing named and may not lack it. -/
def lacksDest (window : List UInt8) : Release → Checked Bool
  | .v5 => do
    let dest ← part window 8 12
    .ok (dest == zeroWord)
  | .v6 => .ok false

/-- Whether the bytes of a window look like one record. -/
def accepts (release : Release) (window : List UInt8) : Checked Bool :=
  if window.length = release.recordSize then do
    let reserved ← part window 0 4
    if reserved = zeroWord then do
      let name ← part window 4 8
      if name = zeroWord then .ok false
      else do
        let cut ← sub window.length release.signatureSize
        let signature ← part window cut window.length
        let lacking ← lacksDest window release
        .ok (!lacking && release.signatures.contains signature)
    else .ok false
  else .ok false

/-- Whether a record begins at an offset of the image. -/
def recordAt (release : Release) (image : Image) (offset : Nat) : Checked Bool :=
  match add? offset release.recordSize with
  | some stop =>
    if stop ≤ image.size then do
      let window ← slice image offset stop
      accepts release window
    else .ok false
  | none => .ok false

theorem accepts_eq (release : Release) (window : List UInt8) :
    accepts release window = .ok (release.accepts window) := by
  have hsize := release.signatureSize_add_twelve_le
  by_cases hlength : window.length = release.recordSize
  · have hfield : ∀ {lo hi}, lo ≤ hi → hi ≤ release.recordSize →
        part window lo hi = .ok (field window lo (hi - lo)) :=
      fun hle hhi => part_eq hle (by omega)
    have hcut : sub window.length release.signatureSize =
        .ok (release.recordSize - release.signatureSize) := by
      rw [hlength]
      exact sub_eq (by omega)
    have hsignature : part window (release.recordSize - release.signatureSize) window.length =
        .ok (window.drop (release.recordSize - release.signatureSize)) := by
      rw [part_eq (by omega) (Nat.le_refl _),
        List.take_of_length_le (Nat.le_of_eq List.length_drop)]
    have hdest : lacksDest window release =
        .ok (!(release.allowsZeroDest || field window 8 4 != zeroWord)) := by
      cases release with
      | v5 =>
          rw [lacksDest, hfield (by decide) (by decide), ok_bind]
          simp [Release.allowsZeroDest, bne]
      | v6 => rfl
    rw [accepts, if_pos hlength, hfield (by omega) (by omega), ok_bind]
    by_cases hreserved : field window 0 4 = zeroWord
    · rw [if_pos hreserved, hfield (by omega) (by omega), ok_bind]
      by_cases hname : field window 4 4 = zeroWord
      · rw [if_pos hname]
        simp [Release.accepts, hname]
      · rw [if_neg hname, hcut, ok_bind, hsignature, ok_bind, hdest, ok_bind, Bool.not_not]
        simp [Release.accepts, hlength, hreserved, bne, beq_eq_false_iff_ne.2 hname]
    · rw [if_neg hreserved]
      simp [Release.accepts, hreserved]
  · rw [accepts, if_neg hlength]
    simp [Release.accepts, hlength]

section Scan

variable (hsize : image.size < sliceLimit)

include hsize

theorem recordAt_eq (release : Release) (offset : Nat) :
    recordAt release image offset = .ok (release.recordAt image offset) := by
  have hroom := room
  by_cases hfits : offset + release.recordSize ≤ image.size
  · have hstop : add? offset release.recordSize = some (offset + release.recordSize) :=
      if_pos (by omega)
    rw [recordAt, hstop]
    show (if _ then _ else _) = _
    rw [if_pos hfits, slice_eq (by omega) hfits, ok_bind, Nat.add_sub_cancel_left, accepts_eq]
    rfl
  · have hnone : release.recordAt image offset = false := by
      have hnot := mt (@Release.fits_of_recordAt release image offset) hfits
      simpa using hnot
    rw [recordAt, hnone]
    cases hstop : add? offset release.recordSize with
    | none => rfl
    | some stop =>
        have hvalue : stop = offset + release.recordSize := by
          unfold add? at hstop
          split at hstop
          · exact (Option.some.inj hstop).symm
          · cases hstop
        show (if _ then _ else _) = _
        rw [if_neg (by omega)]

end Scan

/-! ## Runs -/

/-- Whether records begin at the `i`-th slot behind an offset and at those that follow it. -/
def holdsRecords (release : Release) (image : Image) (offset i : Nat) : Nat → Checked Bool
  | 0 => .ok true
  | left + 1 =>
    match (mul? i release.recordSize).bind (add? offset) with
    | some start => do
      let matched ← recordAt release image start
      if matched then holdsRecords release image offset (i + 1) left else .ok false
    | none => .ok false

/-- Two bytes of the `i`-th record behind an offset. -/
def half (release : Release) (image : Image) (offset distance i : Nat) : Checked (List UInt8) := do
  let skipped ← mul i release.recordSize
  let record ← add offset skipped
  let start ← add record distance
  let stop ← add start 2
  slice image start stop

/-- Whether two bytes stay the same from the record before the `i`-th one on. -/
def isSteady (release : Release) (image : Image) (offset distance i : Nat) : Nat → Checked Bool
  | 0 => .ok true
  | left + 1 => do
    let later ← half release image offset distance i
    let before ← sub i 1
    let earlier ← half release image offset distance before
    if later = earlier then isSteady release image offset distance (i + 1) left else .ok false

/-- Whether a table may begin at an offset. -/
def startsRun (release : Release) (image : Image) (minRun offset : Nat) : Checked Bool := do
  let held ← holdsRecords release image offset 0 minRun
  if held then
    match release with
    | .v5 => do
      let first ← isSteady .v5 image offset 4 1 (minRun - 1)
      let second ← isSteady .v5 image offset 6 1 (minRun - 1)
      .ok (Bool.xor first second)
    | .v6 => .ok true
  else .ok false

/-- One more record of a run, if there is one. -/
def runStep (release : Release) (image : Image) (stop : Nat) : Checked (Step Nat Nat) := do
  let matched ← recordAt release image stop
  if matched then do
    let next ← add stop release.recordSize
    .ok (.again next)
  else .ok (.done stop)

/-- The first offset behind the run of records that begins at an offset. -/
def runEnd (release : Release) (image : Image) (offset : Nat) : Checked Nat :=
  loop (fun stop => image.size - stop) (runStep release image) offset

section Scan

variable (hsize : image.size < sliceLimit)

include hsize

theorem holdsRecords_eq (release : Release) (offset i left : Nat) :
    holdsRecords release image offset i left =
      .ok (release.holdsRecords image (offset + i * release.recordSize) left) := by
  induction left generalizing i with
  | zero => rfl
  | succ left ih =>
      have hshift : offset + i * release.recordSize + release.recordSize =
          offset + (i + 1) * release.recordSize := by
        rw [Nat.succ_mul]
        omega
      rw [Release.holdsRecords, hshift, holdsRecords]
      by_cases hword : offset + i * release.recordSize < wordLimit
      · have hstart : (mul? i release.recordSize).bind (add? offset) =
            some (offset + i * release.recordSize) := by
          rw [mul?, if_pos (by omega), Option.bind_some, add?, if_pos hword]
        rw [hstart]
        show (recordAt release image _ >>= fun matched => _) = _
        rw [recordAt_eq hsize, ok_bind]
        cases release.recordAt image (offset + i * release.recordSize) with
        | true => exact ih (i + 1)
        | false => rfl
      · -- where the place of a record is no word, no record begins
        have hroom := room
        have hnone : (mul? i release.recordSize).bind (add? offset) = none := by
          rw [mul?]
          split
          · exact if_neg hword
          · rfl
        have hrecord : release.recordAt image (offset + i * release.recordSize) = false := by
          have hnot : ¬ release.recordAt image (offset + i * release.recordSize) = true := by
            intro hrecord
            have hfits := Release.fits_of_recordAt hrecord
            omega
          simpa using hnot
        rw [hnone, hrecord]
        rfl

theorem half_eq {offset distance i : Nat} (hdistance : distance + 2 ≤ release.recordSize)
    (hfits : offset + (i + 1) * release.recordSize ≤ image.size) :
    half release image offset distance i =
      .ok (image.window (offset + i * release.recordSize + distance) 2) := by
  have hroom := room
  rw [Nat.succ_mul] at hfits
  rw [half, mul_eq (by omega), ok_bind, add_eq (by omega), ok_bind, add_eq (by omega), ok_bind,
    add_eq (by omega), ok_bind, slice_eq (by omega) (by omega), Nat.add_sub_cancel_left]

theorem isSteady_eq {offset distance i left : Nat}
    (hdistance : distance + 2 ≤ release.recordSize)
    (hfits : offset + (i + 1 + left) * release.recordSize ≤ image.size) :
    isSteady release image offset distance (i + 1) left =
      .ok (release.isSteady image distance (offset + i * release.recordSize) (left + 1)) := by
  induction left generalizing i with
  | zero => rfl
  | succ left ih =>
      have hnext : offset + (i + 1 + 1 + left) * release.recordSize ≤ image.size := by
        rw [Nat.add_right_comm, Nat.add_assoc (i + 1)]
        exact hfits
      have hlater : offset + (i + 1 + 1) * release.recordSize ≤ image.size := by
        have hrecords : (i + 1 + 1) * release.recordSize ≤
            (i + 1 + 1 + left) * release.recordSize :=
          Nat.mul_le_mul_right _ (by omega)
        omega
      have hearlier : offset + (i + 1) * release.recordSize ≤ image.size := by
        rw [Nat.succ_mul] at hlater
        omega
      have hshift : offset + i * release.recordSize + release.recordSize =
          offset + (i + 1) * release.recordSize := by
        rw [Nat.succ_mul]
        omega
      rw [isSteady, half_eq hsize hdistance hlater, ok_bind, sub_eq (by omega), ok_bind,
        Nat.add_sub_cancel, half_eq hsize hdistance hearlier, ok_bind, Release.isSteady, hshift]
      by_cases hsame : image.window (offset + i * release.recordSize + distance) 2 =
          image.window (offset + (i + 1) * release.recordSize + distance) 2
      · rw [if_pos hsame.symm, ih hnext, beq_iff_eq.2 hsame, Bool.true_and]
      · rw [if_neg fun heq => hsame heq.symm, beq_eq_false_iff_ne.2 hsame, Bool.false_and]

theorem startsRun_eq (release : Release) (minRun offset : Nat) :
    startsRun release image minRun offset = .ok (release.startsRun image minRun offset) := by
  rw [startsRun.eq_def, holdsRecords_eq hsize, ok_bind, Nat.zero_mul, Nat.add_zero,
    Release.startsRun.eq_def]
  cases hheld : release.holdsRecords image offset minRun with
  | false => rfl
  | true =>
      cases release with
      | v6 => rfl
      | v5 =>
          cases minRun with
          | zero => rfl
          | succ left =>
              -- the last record of the run is in the image, and all others before it
              have hlast := Release.fits_of_recordAt
                (Release.holdsRecords_iff.1 hheld left (Nat.lt_succ_self left))
              have hfits : offset + (0 + 1 + left) * Release.v5.recordSize ≤ image.size := by
                rw [Nat.zero_add, Nat.add_comm 1 left, Nat.succ_mul]
                omega
              show (isSteady .v5 image offset 4 (0 + 1) left >>= fun first =>
                isSteady .v5 image offset 6 (0 + 1) left >>= fun second => _) = _
              rw [isSteady_eq hsize (by decide) hfits, ok_bind, isSteady_eq hsize (by decide) hfits,
                ok_bind, Nat.zero_mul, Nat.add_zero]
              rfl

theorem runEnd_eq (release : Release) (offset : Nat) :
    runEnd release image offset = .ok (release.runEnd image offset) := by
  have hroom := room
  have hpos := release.recordSize_pos
  refine loop_eq (fun _ => True) (release.runEnd image) (fun stop _ => ?_) trivial
  cases hrecord : release.recordAt image stop with
  | false =>
      left
      rw [runStep, recordAt_eq hsize, ok_bind, hrecord, Release.runEnd, hrecord]
      rfl
  | true =>
      have hfits := Release.fits_of_recordAt hrecord
      refine .inr ⟨stop + release.recordSize, ?_, by omega, trivial, ?_⟩
      · rw [runStep, recordAt_eq hsize, ok_bind, hrecord, if_pos rfl, add_eq (by omega), ok_bind]
      · rw [Release.runEnd.eq_def release image stop, if_pos hrecord]

end Scan

/-! ## Counted searches -/

/-- Tests candidates in turn, and counts each of them before its test. -/
def scan (counter : Counter) (test : Nat → Checked Bool) (done candidate : Nat) :
    Nat → Checked (Except Fault (Option Nat))
  | 0 => .ok (.ok none)
  | left + 1 => do
    let counted ← add done 1
    match counter.check counted with
    | .error fault => .ok (.error fault)
    | .ok () => do
      let passed ← test candidate
      if passed then .ok (.ok (some candidate))
      else scan counter test counted (candidate + 1) left

/-- The first of the candidates `0, …, last` that passes a test, in one scan. -/
def scanInOrder (budget : Budget) (test : Nat → Checked Bool) (last : Nat) :
    Checked (Except Fault (Option Nat)) :=
  scan (budget.counter .sequentialScan defaultInterval) test 0 0 (last + 1)

/-- The first candidate of one block that passes a test. -/
def scanBlock (budget : Budget) (test : Nat → Checked Bool) (candidates index : Nat) :
    Checked (Except Fault (Option Nat)) := do
  -- blocks are listed by their beginnings, and the list goes on only up to the last candidate
  let start := index * blockSize
  let reached ← add start blockSize
  scan (budget.counter (.blockScan index) blockInterval) test 0 start (min reached candidates - start)

/-- Searches all of some blocks. The lowest block with a hit or a fault has the answer, but none of the
others may be trapped either, since blocks are searched at once. -/
def scanBlocks (budget : Budget) (test : Nat → Checked Bool) (candidates index : Nat) :
    Nat → Checked (Except Fault (Option Nat))
  | 0 => .ok (.ok none)
  | blocks + 1 => do
    let here ← scanBlock budget test candidates index
    let behind ← scanBlocks budget test candidates (index + 1) blocks
    match here with
    | .ok none => .ok behind
    | decided => .ok decided

/-- The first of the candidates `0, …, last` at which a table may begin. -/
def findStart (config : Config) (image : Image) (budget : Budget) (last : Nat) :
    Checked (Except Fault (Option Nat)) :=
  let test := startsRun config.release image config.minTableRun.toNat
  if config.parallelScan then do
    let candidates ← add last 1
    scanBlocks budget test candidates 0 ((candidates + blockSize - 1) / blockSize)
  else scanInOrder budget test last

/-- The extent of the run that begins at an offset. The number of its records goes to the log. -/
def extentFrom (release : Release) (image : Image) (start : Nat) : Checked Span := do
  let stop ← runEnd release image start
  let length ← sub stop start
  let _records := length / release.recordSize
  .ok ⟨start, stop⟩

/-- The extent of the first symbol table of an image. -/
def findTable (config : Config) (image : Image) (budget : Budget) :
    Checked (Except Fault (Option Span)) :=
  let record := config.release.recordSize
  let run := saturatingMul record config.minTableRun.toNat
  if image.size < record then .ok (.error (.shortImage image.size record))
  else if image.size < run then .ok (.ok none)
  else do
    let last ← sub image.size run
    let found ← findStart config image budget last
    match found with
    | .error fault => .ok (.error fault)
    | .ok none => .ok (.ok none)
    | .ok (some start) => do
      let extent ← extentFrom config.release image start
      .ok (.ok (some extent))

section Counted

variable {test : Nat → Checked Bool} {passes : Nat → Bool}
  (htest : ∀ candidate, test candidate = .ok (passes candidate))

include htest

theorem scan_eq (counter : Counter) {done candidate left : Nat} (hdone : done + left < wordLimit) :
    scan counter test done candidate left =
      .ok (counter.firstSome (fun offset => if passes offset then some offset else none) done
        candidate left) := by
  induction left generalizing done candidate with
  | zero => rfl
  | succ left ih =>
      rw [scan, add_eq (by omega), ok_bind, Counter.firstSome]
      cases counter.check (done + 1) with
      | error fault => rfl
      | ok _ =>
          show (test candidate >>= fun passed => _) = _
          rw [htest, ok_bind]
          cases passes candidate with
          | true => rfl
          | false => exact ih (by omega)

theorem scanBlock_eq (budget : Budget) {candidates index : Nat}
    (hindex : index * blockSize < candidates) (hcandidates : candidates ≤ sliceLimit) :
    scanBlock budget test candidates index =
      .ok (FirmwareSymbols.scanBlock budget passes candidates index) := by
  have hroom := room
  have hblock : blockSize = 65536 := rfl
  have hcount : min (index * blockSize + blockSize) candidates - index * blockSize =
      min blockSize (candidates - index * blockSize) := by omega
  rw [scanBlock, add_eq (by omega), ok_bind, hcount, scan_eq htest _ (by omega)]
  rfl

theorem scanBlocks_eq (budget : Budget) {candidates index blocks : Nat}
    (hblocks : ∀ k, k < blocks → (index + k) * blockSize < candidates)
    (hcandidates : candidates ≤ sliceLimit) :
    scanBlocks budget test candidates index blocks =
      .ok (FirmwareSymbols.scanBlocks budget passes candidates index blocks) := by
  induction blocks generalizing index with
  | zero => rfl
  | succ blocks ih =>
      have hbehind : ∀ k, k < blocks → (index + 1 + k) * blockSize < candidates := by
        intro k hk
        rw [Nat.add_right_comm]
        exact hblocks (k + 1) (by omega)
      have hhere : index * blockSize < candidates := hblocks 0 (by omega)
      rw [scanBlocks, scanBlock_eq htest budget hhere hcandidates, ok_bind,
        ih hbehind, ok_bind, FirmwareSymbols.scanBlocks]
      cases FirmwareSymbols.scanBlock budget passes candidates index with
      | error fault => rfl
      | ok hit => cases hit <;> rfl

end Counted

section Scan

variable (hsize : image.size < sliceLimit)

include hsize

/-- Neither kind of scan is trapped. -/
theorem findStart_eq (config : Config) (budget : Budget) {last : Nat} (hlast : last ≤ image.size) :
    findStart config image budget last = .ok (config.findStart image budget (last + 1)) := by
  have hroom := room
  have htest := startsRun_eq hsize config.release config.minTableRun.toNat
  rw [findStart, Config.findStart]
  split
  · have hblocks : ∀ k, k < (last + 1 + blockSize - 1) / blockSize →
        (0 + k) * blockSize < last + 1 := by
      intro k hk
      unfold blockSize at hk ⊢
      omega
    rw [add_eq (by omega), ok_bind]
    exact scanBlocks_eq htest budget hblocks (by omega)
  · exact scan_eq htest _ (by omega)

theorem extentFrom_eq (release : Release) (start : Nat) :
    extentFrom release image start = .ok ⟨start, release.runEnd image start⟩ := by
  obtain ⟨count, hend, _⟩ := Release.exists_runEnd release image start
  rw [extentFrom, runEnd_eq hsize, ok_bind, sub_eq (by omega), ok_bind]

theorem findTable_eq (config : Config) (budget : Budget) :
    findTable config image budget = .ok (config.findTable image budget) := by
  have hroom := room
  rw [findTable, Config.findTable_eq_bind]
  by_cases hshort : image.size < config.release.recordSize
  · rw [if_pos hshort, if_pos hshort]
  · rw [if_neg hshort, if_neg hshort, saturatingMul]
    -- a product beyond a word is beyond the size of the image, and so is the greatest word
    generalize config.release.recordSize * config.minTableRun.toNat = run
    by_cases hrun : image.size < run
    · rw [if_pos (by omega), if_pos hrun]
    · have hword : min run (wordLimit - 1) = run := by omega
      rw [if_neg (by omega), if_neg hrun, hword, sub_eq (by omega), ok_bind,
        findStart_eq hsize config budget (by omega), ok_bind]
      cases config.findStart image budget (image.size - run + 1) with
      | error fault => rfl
      | ok hit =>
          cases hit with
          | none => rfl
          | some start =>
              show (extentFrom config.release image start >>= fun extent => _) = _
              rw [extentFrom_eq hsize, ok_bind]
              rfl

end Scan

end Checked

end FirmwareSymbols
